import Mathlib.Algebra.Order.Ring.Int
import Pizzini.Delivery.SampleChain
import Pizzini.Relay.ChainValidatorCrash
import Pizzini.Relay.FrameParsers
import Pizzini.Relay.RoutingSafety
import Pizzini.Relay.SeedFlood
import Pizzini.Relay.SoftState

/-!
# The retry table of SEND and ACK

A client that loses its socket sends its unconfirmed frames again, with the
same sealed bytes and a new token. The relay keeps the pair of sender and hash
of the sealed bytes for five minutes, and drops a frame whose pair it has
without a word, as a "retry of an already-accepted SEND" (main.rs:1698–1737).

The pair is recorded when the frame has passed its token check, before it is
forwarded or queued. So the table also has the frames that the queue then
refuses, and the retry of such a frame is dropped for five minutes although
nothing was delivered (`refused_frame_not_retried`). A frame is dropped for a
delivered one in every run in which the frame that made the entry was for the
same recipient, had the same sealed bytes, found room in the queue, and is no
longer under way (`dropped_frames_delivered`).

The module puts the token check and the table in front of the handlers of
`Routing`, of which every step is one of theirs or none
(`DedupeStep.relayStep`).
-/

namespace Pizzini.Delivery

open Runs Wire Relay

variable {K : Type} [Ring K] [LinearOrder K]

/-! ## The table (main.rs:654–699, 2708–2766) -/

def SEND_DEDUPE_WINDOW : K := 300
def SEND_DEDUPE_MAX_ENTRIES : Nat := 10000

/-- `SendDedupeKey`: the sender and the 32-byte hash of the sealed bytes. -/
abbrev SendDedupeKey := PeerId × ChainValue

/-- `SendDedupes`. -/
abbrev SendDedupes (K : Type) := Dict SendDedupeKey K

omit [Ring K] in
/-- What `min_by_key` picks: an entry no other is older than. Among equals the
order of the `HashMap` decides, which is not fixed. -/
def IsOldest (table : SendDedupes K) (oldest : SendDedupeKey) : Prop :=
  ∃ t, table.lookup oldest = some t ∧ ∀ key t', table.lookup key = some t' → t ≤ t'

/-- `dedupe_check_and_insert`; `oldest` is the entry that goes if the table is
full. -/
def dedupeCheckAndInsert (table : SendDedupes K) (oldest key : SendDedupeKey) (now : K) :
    SendDedupes K × Bool :=
  if (table.lookup key).isSome then (table, true)
  else
    let room := if SEND_DEDUPE_MAX_ENTRIES ≤ table.len then table.erase oldest else table
    (room.insert key now, false)

/-! ## Frames -/

/-- A SEND or ACK whose header has been read. `number` numbers the frames, so
that a retry is told from the frame it repeats. -/
structure SealedFrame where
  number : Nat
  senderId : PeerId
  frameType : UInt8
  body : Bytes
  parsed : ParsedSealed
  deriving DecidableEq

namespace SealedFrame

/-- `sealed`: what follows the header. -/
def sealedBytes (f : SealedFrame) : Bytes := f.body.drop f.parsed.sealedOffset

/-- The key a frame has in the table. -/
def key (blake3 : Bytes → ChainValue) (f : SealedFrame) : SendDedupeKey :=
  (f.senderId, blake3 f.sealedBytes)

/-- The frame as its handler forwards or queues it. -/
def accepted (f : SealedFrame) (tag : Nat) : Accepted where
  tag := tag
  toId := f.parsed.toId
  pclass := .authorized
  ttlSeconds := f.parsed.ttlSeconds
  bytes := f.frameType :: f.body

/-- The two frames carry one message: the same sealed bytes, from the same
sender to the same recipient. -/
def SameMessage (f g : SealedFrame) : Prop :=
  f.senderId = g.senderId ∧ f.parsed.toId = g.parsed.toId ∧ f.sealedBytes = g.sealedBytes

instance (f g : SealedFrame) : Decidable (f.SameMessage g) :=
  inferInstanceAs (Decidable (_ ∧ _))

end SealedFrame

/-! ## Room in the queue -/

/-- `enqueue_inner` stores the frame: there is a slot for its recipient, and
room for one more frame and its bytes. -/
def HasRoom (pending : PendingStore QueuedFrame) (now : UInt64) (a : Accepted) : Prop :=
  ¬ (pending.isNewPeer a.toId ∧ pending.maxDistinctPeers ≤ pending.queues.len) ∧
    (pending.perPeerEviction a.toId ∨ pending.totalFrames < pending.maxTotalFrames) ∧
    pending.totalBytes + pending.incoming a.toId (a.entry now) ≤
      pending.maxTotalBytes + pending.reclaimed a.toId

instance (pending : PendingStore QueuedFrame) (now : UInt64) (a : Accepted) :
    Decidable (HasRoom pending now a) := inferInstanceAs (Decidable (_ ∧ _))

/-- An authorised frame is stored exactly if there is room. -/
theorem enqueue_stored_iff {pending : PendingStore QueuedFrame} {now : UInt64} {a : Accepted}
    (hclass : a.pclass = .authorized) :
    (a.enqueue now pending).2 = .stored ↔ HasRoom pending now a := by
  unfold Accepted.enqueue
  rw [hclass]
  simp only [PendingStore.enqueue, PendingStore.enqueueInner]
  split
  next hpeers =>
    exact ⟨by rintro ⟨⟩, fun h => absurd hpeers h.1⟩
  next hpeers =>
    split
    next hframes =>
      refine ⟨by rintro ⟨⟩, fun h => ?_⟩
      cases h.2.1 with
      | inl hevicts => exact absurd hevicts hframes.1
      | inr hlt => exact absurd hframes.2 (Nat.not_le_of_lt hlt)
    next hframes =>
      split
      next hbytes =>
        exact ⟨by rintro ⟨⟩, fun h => absurd h.2.2 (Nat.not_le_of_lt hbytes)⟩
      next hbytes =>
        refine ⟨fun _ => ⟨hpeers, ?_, Nat.le_of_not_lt hbytes⟩, fun _ => rfl⟩
        by_cases hevicts : pending.perPeerEviction a.toId = true
        · exact .inl hevicts
        · exact .inr (Nat.lt_of_not_le fun hle => hframes ⟨hevicts, hle⟩)

/-! ## The relay -/

/-- The relay of `Routing` with the token check and the table in front. A frame
is in `checked` between its token check and the table, and in `passed` between
the table and its route lookup. The other fields are ghosts. -/
structure DedupeRelay (K : Type) where
  relay : RelayState
  validators : ChainValidatorStore
  dedupes : SendDedupes K
  checked : List SealedFrame
  passed : List SealedFrame
  /-- the number of the next frame -/
  nextNumber : Nat
  /-- the frame that made the last entry of a key -/
  makers : SendDedupeKey → Option SealedFrame
  /-- the frames that have got to their route lookup -/
  routed : List (SealedFrame × Accepted)
  /-- the frames for which the queue had no room -/
  refused : List Accepted
  /-- the dropped frames, each with the frames delivered before it -/
  drops : List (SealedFrame × List SealedFrame)

/-- A relay that has just started. -/
def DedupeRelay.started (relay : RelayState) (validators : ChainValidatorStore) :
    DedupeRelay K where
  relay := relay
  validators := validators
  dedupes := ∅
  checked := []
  passed := []
  nextNumber := 0
  makers := fun _ => none
  routed := []
  refused := []
  drops := []

omit [Ring K] [LinearOrder K] in
@[simp] theorem DedupeRelay.started_validators (relay : RelayState)
    (validators : ChainValidatorStore) :
    (DedupeRelay.started (K := K) relay validators).validators = validators := rfl

/-- What happens next. -/
inductive DedupeEvent (K : Type) where
  /-- a frame is read, and its token checked -/
  | recv (rand : Rand) (now : UInt64) (senderId : PeerId) (frameType : UInt8) (body : Bytes)
  /-- it gets to the table -/
  | dedupe (f : SealedFrame) (oldest : SendDedupeKey) (now : K)
  /-- it gets to its route lookup -/
  | route (f : SealedFrame)
  /-- a later lock region of a handler -/
  | exec (h : Handler) (now : UInt64) (sends : Nat)
  /-- anything else that touches the routes or the queues -/
  | other (ev : RelayEvent)
  /-- another handler's call of the chain store -/
  | chains (rand : Rand) (now : UInt64) (req : Request)
  /-- a tick of the table's collector -/
  | gc (computedAt : K)

namespace DedupeRelay

omit [Ring K] [LinearOrder K]

/-- The frame was handed to an open channel, or stored. -/
def Delivered (s : DedupeRelay K) (f : SealedFrame) : Prop :=
  ∃ a, (f, a) ∈ s.routed ∧
    (a ∈ s.relay.tables.history.handed.map Prod.snd ∨ a ∈ s.relay.tables.history.stored)

/-- All such frames. -/
def delivered (s : DedupeRelay K) : List SealedFrame :=
  (s.routed.filter fun r =>
    r.2 ∈ s.relay.tables.history.handed.map Prod.snd ∨
      r.2 ∈ s.relay.tables.history.stored).map Prod.fst

theorem mem_delivered {s : DedupeRelay K} {f : SealedFrame} :
    f ∈ s.delivered ↔ s.Delivered f := by
  simp only [delivered, Delivered, List.mem_map, List.mem_filter, decide_eq_true_eq]
  constructor
  · rintro ⟨⟨g, a⟩, ⟨hrouted, hwhere⟩, rfl⟩
    exact ⟨a, hrouted, hwhere⟩
  · rintro ⟨a, hrouted, hwhere⟩
    exact ⟨(f, a), ⟨hrouted, hwhere⟩, rfl⟩

/-- The frame has passed the table and is not delivered or refused yet. -/
def UnderWay (s : DedupeRelay K) (f : SealedFrame) : Prop :=
  f ∈ s.passed ∨ ∃ a, (f, a) ∈ s.routed ∧ Handler.queueing a ∈ s.relay.handlers

/-- There was no room for the frame. -/
def Refused (s : DedupeRelay K) (f : SealedFrame) : Prop :=
  ∃ a, (f, a) ∈ s.routed ∧ a ∈ s.refused

/-- The arm of `read_loop` up to the token check (main.rs:1678–1697). -/
def recv (env : ChainEnv) (s : DedupeRelay K) (rand : Rand) (now : UInt64) (senderId : PeerId)
    (frameType : UInt8) (body : Bytes) : DedupeRelay K :=
  match parseSealed body with
  | .error _ => s
  | .ok parsed =>
    match checkDeliveryToken env rand now s.validators parsed.toId parsed.token with
    | (validators, .error _) => { s with validators }
    | (validators, .ok _) =>
      { s with
        validators
        checked := s.checked ++ [⟨s.nextNumber, senderId, frameType, body, parsed⟩]
        nextNumber := s.nextNumber + 1 }

/-- Its next part (main.rs:1724–1737). -/
def dedupe (blake3 : Bytes → ChainValue) (s : DedupeRelay K) (f : SealedFrame)
    (oldest : SendDedupeKey) (now : K) : DedupeRelay K :=
  match dedupeCheckAndInsert s.dedupes oldest (f.key blake3) now with
  | (_, true) =>
    { s with
      checked := s.checked.erase f
      drops := s.drops ++ [(f, s.delivered)] }
  | (dedupes, false) =>
    { s with
      checked := s.checked.erase f
      dedupes
      passed := s.passed ++ [f]
      makers := fun key => if key = f.key blake3 then some f else s.makers key }

/-- The route lookup (main.rs:1740–1750). -/
def route (s : DedupeRelay K) (f : SealedFrame) : DedupeRelay K :=
  let a := f.accepted s.relay.nextTag
  { s with
    relay := s.relay.lookupAndSend a
    passed := s.passed.erase f
    routed := s.routed ++ [(f, a)] }

/-- Ghost: the frame for which a lock region finds no room. -/
def refusals (s : DedupeRelay K) (now : UInt64) : Handler → List Accepted
  | .queueing a => if HasRoom s.relay.tables.pending now a then [] else [a]
  | _ => []

/-- A later lock region of the handler `h`, which is between `pre` and `post`. -/
def exec (s : DedupeRelay K) (pre post : List Handler) (h : Handler) (now : UInt64)
    (sends : Nat) : DedupeRelay K :=
  { s with
    relay := { s.relay with
      tables := (h.exec s.relay.tables now sends).1
      handlers := pre ++ (h.exec s.relay.tables now sends).2.toList ++ post }
    refused := s.refused ++ s.refusals now h }

end DedupeRelay

/-- The events of `Routing` that are no part of a SEND or ACK. -/
def NotSealed : RelayEvent → Prop
  | .send a => a.pclass = .seed
  | .exec _ _ => False
  | _ => True

/-- One lock region. Nothing is assumed about the instants and the clocks. -/
inductive DedupeStep (env : ChainEnv) (maxAge : UInt64) (blake3 : Bytes → ChainValue) :
    DedupeRelay K → DedupeEvent K → DedupeRelay K → Prop where
  | recv {s : DedupeRelay K} {rand : Rand} {now : UInt64} {senderId : PeerId} {frameType : UInt8}
      {body : Bytes} (htype : frameType = FRAME_TYPE_SEND ∨ frameType = FRAME_TYPE_ACK) :
      DedupeStep env maxAge blake3 s (.recv rand now senderId frameType body)
        (s.recv env rand now senderId frameType body)
  | dedupe {s : DedupeRelay K} {f : SealedFrame} {oldest : SendDedupeKey} {now : K}
      (hmem : f ∈ s.checked)
      (holdest : SEND_DEDUPE_MAX_ENTRIES ≤ s.dedupes.len → IsOldest s.dedupes oldest) :
      DedupeStep env maxAge blake3 s (.dedupe f oldest now) (s.dedupe blake3 f oldest now)
  | route {s : DedupeRelay K} {f : SealedFrame} (hmem : f ∈ s.passed) :
      DedupeStep env maxAge blake3 s (.route f) (s.route f)
  | exec {s : DedupeRelay K} {pre post : List Handler} {h : Handler} {now : UInt64} {sends : Nat}
      (hs : s.relay.handlers = pre ++ h :: post) :
      DedupeStep env maxAge blake3 s (.exec h now sends) (s.exec pre post h now sends)
  | other {s : DedupeRelay K} {ev : RelayEvent} {relay : RelayState} (hev : NotSealed ev)
      (hstep : RelayStep s.relay ev relay) :
      DedupeStep env maxAge blake3 s (.other ev) { s with relay }
  | chains {s : DedupeRelay K} {rand : Rand} {now : UInt64} {req : Request} :
      DedupeStep env maxAge blake3 s (.chains rand now req)
        { s with validators := (perform env maxAge rand now s.validators req).1 }
  | gc {s : DedupeRelay K} {computedAt : K} :
      DedupeStep env maxAge blake3 s (.gc computedAt)
        { s with dedupes := retainAfter (instantCutoff computedAt SEND_DEDUPE_WINDOW) s.dedupes }

variable {env : ChainEnv} {maxAge : UInt64} {blake3 : Bytes → ChainValue}

/-- Below the table the relay is that of `Routing`. -/
theorem DedupeStep.relayStep {s s' : DedupeRelay K} {e : DedupeEvent K}
    (h : DedupeStep env maxAge blake3 s e s') :
    s'.relay = s.relay ∨ ∃ ev, RelayStep s.relay ev s'.relay := by
  cases h with
  | recv _ =>
    left
    unfold DedupeRelay.recv
    split
    · rfl
    · split <;> rfl
  | dedupe _ _ =>
    left
    unfold DedupeRelay.dedupe
    split <;> rfl
  | route _ => exact .inr ⟨_, .send rfl⟩
  | exec hs => exact .inr ⟨_, .exec hs⟩
  | other _ hstep => exact .inr ⟨_, hstep⟩
  | chains => exact .inl rfl
  | gc => exact .inl rfl

/-- Every dropped frame repeats a message that had been delivered. -/
def DedupeRelay.NothingLost (s : DedupeRelay K) : Prop :=
  ∀ d ∈ s.drops, ∃ g ∈ d.2, g.SameMessage d.1

/-! ## When nothing is lost -/

/-- A frame that has its key in the table meets an entry that was made by a
frame for the same recipient, with the same sealed bytes, that found room and
is no longer under way. -/
def Genuine (blake3 : Bytes → ChainValue) (s : DedupeRelay K) : DedupeEvent K → Prop
  | .dedupe f _ _ => (s.dedupes.lookup (f.key blake3)).isSome →
      ∀ g, s.makers (f.key blake3) = some g →
        g.parsed.toId = f.parsed.toId ∧ g.sealedBytes = f.sealedBytes ∧ ¬ s.UnderWay g ∧
          ¬ s.Refused g
  | _ => True

/-- A frame that has passed the table is under way, delivered or refused. -/
def DedupeRelay.Placed (s : DedupeRelay K) (f : SealedFrame) : Prop :=
  s.UnderWay f ∨ s.Delivered f ∨ s.Refused f

structure DedupeInv (blake3 : Bytes → ChainValue) (s : DedupeRelay K) : Prop where
  lost : s.NothingLost
  authorized : ∀ r ∈ s.routed, r.2.pclass = .authorized
  /-- every entry was made by a frame with its key -/
  made : ∀ key, (s.dedupes.lookup key).isSome → ∃ g, s.makers key = some g ∧ g.key blake3 = key
  placed : ∀ key g, s.makers key = some g → s.Placed g

namespace DedupeRelay

omit [Ring K] [LinearOrder K]

variable {s s' : DedupeRelay K}

/-- Steps that take no frame away from where it is. -/
theorem Placed.mono {f : SealedFrame} (h : s.Placed f) (hpassed : s.passed ⊆ s'.passed)
    (hrouted : s.routed ⊆ s'.routed) (hhandlers : s.relay.handlers ⊆ s'.relay.handlers)
    (hhanded : s.relay.tables.history.handed ⊆ s'.relay.tables.history.handed)
    (hstored : s.relay.tables.history.stored ⊆ s'.relay.tables.history.stored)
    (hrefused : s.refused ⊆ s'.refused) : s'.Placed f := by
  rcases h with (hpass | ⟨a, hr, hqueueing⟩) | ⟨a, hr, hhand | hstore⟩ | ⟨a, hr, href⟩
  · exact .inl (.inl (hpassed hpass))
  · exact .inl (.inr ⟨a, hrouted hr, hhandlers hqueueing⟩)
  · exact .inr (.inl ⟨a, hrouted hr, .inl (List.map_subset _ hhanded hhand)⟩)
  · exact .inr (.inl ⟨a, hrouted hr, .inr (hstored hstore)⟩)
  · exact .inr (.inr ⟨a, hrouted hr, hrefused href⟩)

end DedupeRelay

/-- A lookup hands the frame over, or a handler is left to queue it. -/
theorem lookupAndSend_keeps (r : RelayState) (a : Accepted) :
    r.handlers ⊆ (r.lookupAndSend a).handlers ∧
      r.tables.history.handed ⊆ (r.lookupAndSend a).tables.history.handed ∧
      (r.lookupAndSend a).tables.history.stored = r.tables.history.stored ∧
      (Handler.queueing a ∈ (r.lookupAndSend a).handlers ∨
        a ∈ (r.lookupAndSend a).tables.history.handed.map Prod.snd) := by
  unfold RelayState.lookupAndSend
  split
  next ch _ =>
    refine ⟨List.Subset.refl _, List.subset_append_left _ _, rfl, .inr ?_⟩
    refine List.mem_map_of_mem (f := Prod.snd) (a := (ch, a)) ?_
    exact List.mem_append_right _ (List.mem_singleton_self _)
  next =>
    refine ⟨List.subset_append_left _ _, List.Subset.refl _, rfl, .inl ?_⟩
    exact List.mem_append_right _ (List.mem_singleton_self _)

/-- The other handlers' first lock regions take no handler and no record away. -/
theorem relayStep_keeps {r r' : RelayState} {ev : RelayEvent} (hev : NotSealed ev)
    (hstep : RelayStep r ev r') :
    r.handlers ⊆ r'.handlers ∧ r.tables.history.handed ⊆ r'.tables.history.handed ∧
      r.tables.history.stored ⊆ r'.tables.history.stored := by
  cases hstep with
  | @send a _ =>
    obtain ⟨hhandlers, hhanded, hstored, _⟩ := lookupAndSend_keeps r a
    exact ⟨hhandlers, hhanded, hstored ▸ List.Subset.refl _⟩
  | hello => exact ⟨List.subset_append_left _ _, List.Subset.refl _, List.Subset.refl _⟩
  | exec _ => exact hev.elim
  | disconnect _ => exact ⟨List.Subset.refl _, List.Subset.refl _, List.Subset.refl _⟩
  | writerExit _ => exact ⟨List.Subset.refl _, List.Subset.refl _, List.Subset.refl _⟩
  | collect => exact ⟨List.Subset.refl _, List.Subset.refl _, List.Subset.refl _⟩

/-- A later lock region adds to the record of stored frames at most. -/
theorem exec_stored_subset (h : Handler) (t : Tables) (now : UInt64) (sends : Nat) :
    t.history.stored ⊆ (h.exec t now sends).1.history.stored := by
  cases h with
  | queueing a =>
    rcases t.enqueuePending_cases now a with heq | ⟨_, _, _, heq, _⟩
    · simp only [Handler.exec, heq]
      exact List.Subset.refl _
    · simp only [Handler.exec, heq]
      exact List.subset_append_left _ _
  | rechecking p => exact List.Subset.refl _
  | draining p conn =>
    simp only [Handler.exec]
    split <;> exact List.Subset.refl _
  | forwarding p conn batch =>
    have hstored := (t.forward_settles p batch sends).2.1
    show _ ⊆ (t.forward p batch sends).history.stored
    rw [hstored]
    exact List.Subset.refl _

/-- An authorised frame that finds room is stored. -/
theorem stored_of_hasRoom {t : Tables} {now : UInt64} {a : Accepted} (sends : Nat)
    (hclass : a.pclass = .authorized) (hroom : HasRoom t.pending now a) :
    a ∈ ((Handler.queueing a).exec t now sends).1.history.stored := by
  have hstored := (enqueue_stored_iff hclass).mpr hroom
  show a ∈ (t.enqueuePending now a).history.stored
  simp only [Tables.enqueuePending, hstored]
  exact List.mem_append_right _ (List.mem_singleton_self _)

namespace DedupeRelay

variable {s s' : DedupeRelay K}

omit [Ring K] [LinearOrder K] in
/-- The handler that queues a frame stores it or finds no room for it; every
other one leaves it where it is. -/
theorem placed_exec {pre post : List Handler} {h : Handler}
    (hs : s.relay.handlers = pre ++ h :: post) (hauth : ∀ r ∈ s.routed, r.2.pclass = .authorized)
    (now : UInt64) (sends : Nat) {f : SealedFrame} (hf : s.Placed f) :
    (s.exec pre post h now sends).Placed f := by
  have hstored := exec_stored_subset h s.relay.tables now sends
  rcases hf with (hpass | ⟨a, hr, hqueueing⟩) | ⟨a, hr, hhand | hstore⟩ | ⟨a, hr, href⟩
  · exact .inl (.inl hpass)
  · rw [hs, List.mem_append, List.mem_cons] at hqueueing
    rcases hqueueing with hpre | rfl | hpost
    · refine .inl (.inr ⟨a, hr, ?_⟩)
      exact List.mem_append_left _ (List.mem_append_left _ hpre)
    · by_cases hroom : HasRoom s.relay.tables.pending now a
      · exact .inr (.inl ⟨a, hr, .inr (stored_of_hasRoom sends (hauth _ hr) hroom)⟩)
      · refine .inr (.inr ⟨a, hr, List.mem_append_right _ ?_⟩)
        rw [refusals, if_neg hroom]
        exact List.mem_singleton_self a
    · exact .inl (.inr ⟨a, hr, List.mem_append_right _ hpost⟩)
  · have hgrows := (exec_accounted h s.relay.tables now sends a).1
    exact .inr (.inl ⟨a, hr, .inl (List.map_subset _ hgrows.handed hhand)⟩)
  · exact .inr (.inl ⟨a, hr, .inr (hstored hstore)⟩)
  · exact .inr (.inr ⟨a, hr, List.mem_append_left _ href⟩)

omit [Ring K] [LinearOrder K] in
/-- A frame at its route lookup is forwarded or goes to be queued. -/
theorem placed_route {g : SealedFrame} (f : SealedFrame) (hg : s.Placed g) :
    (s.route f).Placed g := by
  obtain ⟨hhandlers, hhanded, hstored, hnew⟩ :=
    lookupAndSend_keeps s.relay (f.accepted s.relay.nextTag)
  have hlast : (f, f.accepted s.relay.nextTag) ∈ (s.route f).routed :=
    List.mem_append_right _ (List.mem_singleton_self _)
  rcases hg with (hpass | ⟨a, hr, hqueueing⟩) | ⟨a, hr, hhand | hstore⟩ | ⟨a, hr, href⟩
  · by_cases hgf : g = f
    · subst hgf
      cases hnew with
      | inl hqueueing => exact .inl (.inr ⟨_, hlast, hqueueing⟩)
      | inr hhand => exact .inr (.inl ⟨_, hlast, .inl hhand⟩)
    · exact .inl (.inl ((List.mem_erase_of_ne hgf).mpr hpass))
  · exact .inl (.inr ⟨a, List.mem_append_left _ hr, hhandlers hqueueing⟩)
  · exact .inr (.inl ⟨a, List.mem_append_left _ hr, .inl (List.map_subset _ hhanded hhand)⟩)
  · exact .inr (.inl ⟨a, List.mem_append_left _ hr, .inr (hstored ▸ hstore)⟩)
  · exact .inr (.inr ⟨a, List.mem_append_left _ hr, href⟩)

end DedupeRelay

namespace DedupeInv

variable {s s' : DedupeRelay K}

omit [Ring K] [LinearOrder K] in
/-- A step at which no frame is at the table keeps the invariant if it takes no
frame away from where it is. -/
theorem congr (h : DedupeInv blake3 s) (hdrops : s'.drops = s.drops)
    (hmakers : s'.makers = s.makers) (hauth : ∀ r ∈ s'.routed, r.2.pclass = .authorized)
    (hdedupes : ∀ key, (s'.dedupes.lookup key).isSome → (s.dedupes.lookup key).isSome)
    (hplaced : ∀ f, s.Placed f → s'.Placed f) : DedupeInv blake3 s' where
  lost := by
    intro d hd
    rw [hdrops] at hd
    exact h.lost d hd
  authorized := hauth
  made := by
    intro key hkey
    rw [hmakers]
    exact h.made key (hdedupes key hkey)
  placed := by
    intro key g hg
    rw [hmakers] at hg
    exact hplaced g (h.placed key g hg)

omit [Ring K] [LinearOrder K] in
/-- A dropped frame meets an entry of a delivered one. -/
theorem drop (h : DedupeInv blake3 s) {f : SealedFrame} {oldest : SendDedupeKey} {now : K}
    (hknown : (s.dedupes.lookup (f.key blake3)).isSome)
    (hok : Genuine blake3 s (.dedupe f oldest now)) : ∃ g ∈ s.delivered, g.SameMessage f := by
  obtain ⟨g, hmaker, hkey⟩ := h.made _ hknown
  obtain ⟨hto, hsealed, hdone, hroom⟩ := hok hknown g hmaker
  refine ⟨g, DedupeRelay.mem_delivered.mpr ?_, congrArg Prod.fst hkey, hto, hsealed⟩
  exact ((h.placed _ g hmaker).resolve_left hdone).resolve_right hroom

omit [Ring K] [LinearOrder K] in
/-- A frame at the table keeps the invariant. -/
theorem dedupe (h : DedupeInv blake3 s) {f : SealedFrame} {oldest : SendDedupeKey} {now : K}
    (hok : Genuine blake3 s (.dedupe f oldest now)) :
    DedupeInv blake3 (s.dedupe blake3 f oldest now) := by
  unfold DedupeRelay.dedupe dedupeCheckAndInsert
  by_cases hknown : (s.dedupes.lookup (f.key blake3)).isSome
  · rw [if_pos hknown]
    refine ⟨?_, h.authorized, h.made, h.placed⟩
    intro d hd
    cases List.mem_append.mp hd with
    | inl hold => exact h.lost d hold
    | inr hlast =>
      cases List.mem_singleton.mp hlast
      exact h.drop hknown hok
  · rw [if_neg hknown]
    have hkeep : ∀ g, s.Placed g → ({ s with passed := s.passed ++ [f] } : DedupeRelay K).Placed g :=
      fun g hg => hg.mono (List.subset_append_left _ _) (List.Subset.refl _) (List.Subset.refl _)
        (List.Subset.refl _) (List.Subset.refl _) (List.Subset.refl _)
    refine ⟨h.lost, h.authorized, fun key hkey => ?_, fun key g hg => ?_⟩
    · by_cases hnew : key = f.key blake3
      · exact ⟨f, if_pos hnew, hnew.symm⟩
      · -- an entry that is still there was there before
        have hbefore : (s.dedupes.lookup key).isSome := by
          simp only [AList.lookup_insert_ne hnew] at hkey
          split at hkey
          · by_cases hold : key = oldest
            · rw [hold, AList.lookup_erase] at hkey
              cases hkey
            · rw [AList.lookup_erase_ne hold] at hkey
              exact hkey
          · exact hkey
        obtain ⟨g, hmaker, hkey'⟩ := h.made key hbefore
        exact ⟨g, (if_neg hnew).trans hmaker, hkey'⟩
    · have hg' : (if key = f.key blake3 then some f else s.makers key) = some g := hg
      by_cases hnew : key = f.key blake3
      · rw [if_pos hnew] at hg'
        cases hg'
        exact .inl (.inl (List.mem_append_right _ (List.mem_singleton_self _)))
      · rw [if_neg hnew] at hg'
        exact hkeep g (h.placed key g hg')

/-- Every step that meets the condition keeps the invariant. -/
theorem step {e : DedupeEvent K} (h : DedupeInv blake3 s) (hok : Genuine blake3 s e)
    (hstep : DedupeStep env maxAge blake3 s e s') : DedupeInv blake3 s' := by
  cases hstep with
  | recv _ =>
    unfold DedupeRelay.recv
    split
    · exact h
    · split
      · exact h.congr rfl rfl h.authorized (fun _ => id) fun _ => id
      · exact h.congr rfl rfl h.authorized (fun _ => id) fun _ => id
  | dedupe _ _ => exact h.dedupe hok
  | @route f _ =>
    refine h.congr rfl rfl (fun r hr => ?_) (fun _ => id) fun g => DedupeRelay.placed_route f
    cases List.mem_append.mp hr with
    | inl hold => exact h.authorized r hold
    | inr hlast =>
      cases List.mem_singleton.mp hlast
      rfl
  | @exec _ _ _ now sends hs =>
    exact h.congr rfl rfl h.authorized (fun _ => id)
      fun g => DedupeRelay.placed_exec hs h.authorized now sends
  | other hev hrelay =>
    obtain ⟨hhandlers, hhanded, hstored⟩ := relayStep_keeps hev hrelay
    refine h.congr rfl rfl h.authorized (fun _ => id) fun g hg => ?_
    exact hg.mono (List.Subset.refl _) (List.Subset.refl _) hhandlers hhanded hstored
      (List.Subset.refl _)
  | chains => exact h.congr rfl rfl h.authorized (fun _ => id) fun _ => id
  | gc =>
    refine h.congr rfl rfl h.authorized (fun key hkey => ?_) fun _ => id
    simp only [lookup_retainAfter, Option.isSome_filter, Option.any_eq_true] at hkey
    obtain ⟨t, hlook, _⟩ := hkey
    rw [hlook]
    rfl

end DedupeInv

/-- In every run in which each frame with its key in the table meets an entry
made by a frame for the same recipient, with the same sealed bytes, that found
room in the queue and is no longer under way, every dropped frame repeats a
message that had been forwarded or stored. -/
theorem dropped_frames_delivered {relay : RelayState} {validators : ChainValidatorStore}
    {s : DedupeRelay K}
    (hrun : Reach (DedupeStep env maxAge blake3) (Genuine blake3)
      (DedupeRelay.started relay validators) s) : s.NothingLost := by
  have hstart : DedupeInv blake3 (DedupeRelay.started (K := K) relay validators) :=
    ⟨nofun, nofun, fun _ => nofun, fun _ _ => nofun⟩
  exact (hrun.invariant (DedupeInv blake3) (fun h hok hstep => h.step hok hstep) hstart).lost

/-! ## A refused frame and its retry -/

section Retry

/-- The body of a SEND to the owner of the sample chain, with its token `i`. -/
def sampleBody (i : Nat) : Bytes :=
  let token := relayScopedToken plainBlake3 (tokenAt plainBlake3 (sampleChain 2) i) sampleNamespace
  beBytes 2 33 ++ (samplePeer.1 ++ (beBytes 4 60 ++ (beBytes 2 52 ++ (encode token ++ [1, 2, 3]))))

/-- That SEND, from the peer `[7]`. -/
def sampleSend (number i : Nat) : SealedFrame where
  number := number
  senderId := [7]
  frameType := FRAME_TYPE_SEND
  body := sampleBody i
  parsed :=
    { toId := samplePeer.1
      ttlSeconds := 60
      token := encode (relayScopedToken plainBlake3 (tokenAt plainBlake3 (sampleChain 2) i)
        sampleNamespace)
      sealedOffset := 93 }

/-- The chain store behind the first `n` tokens. -/
def sampleValidators : Nat → ChainValidatorStore
  | 0 => sampleRelay sampleNamespace 2
  | n + 1 => (checkDeliveryToken plainEnv sampleRand 100 (sampleValidators n) samplePeer.1
      (sampleSend n (n + 1)).parsed.token).1

/-- A relay without routes that has loaded `pending`. -/
def loadedRelay (pending : PendingStore QueuedFrame) : RelayState where
  tables :=
    { routes := ∅
      closed := []
      conns := []
      pending
      history := History.empty }
  handlers := []
  nextChan := 0
  nextTag := 64

theorem eq_ok_of_isOk {ε : Type} {r : Except ε Unit} (h : r.isOk = true) : r = .ok () := by
  cases r with
  | error _ => cases h
  | ok _ => rfl

/-- Both sends pass their checks. -/
theorem recv_sampleSend {s : DedupeRelay ℤ} {i : Nat} (hi : i = 0 ∨ i = 1)
    (hs : s.validators = sampleValidators i) (hnumber : s.nextNumber = i) :
    s.recv plainEnv sampleRand 100 [7] FRAME_TYPE_SEND (sampleBody (i + 1)) =
      { s with
        validators := sampleValidators (i + 1)
        checked := s.checked ++ [sampleSend i (i + 1)]
        nextNumber := i + 1 } := by
  have hparse : parseSealed (sampleBody (i + 1)) = .ok (sampleSend i (i + 1)).parsed := by
    rcases hi with rfl | rfl <;> decide +kernel
  have hcheck : checkDeliveryToken plainEnv sampleRand 100 s.validators
      (sampleSend i (i + 1)).parsed.toId (sampleSend i (i + 1)).parsed.token =
        (sampleValidators (i + 1), .ok ()) := by
    rw [hs]
    refine Prod.ext rfl (eq_ok_of_isOk ?_)
    rcases hi with rfl | rfl <;> decide +kernel
  simp only [DedupeRelay.recv, hparse, hcheck, hnumber]
  rfl

/-- A handler whose frame finds no room leaves everything but itself as it was. -/
theorem exec_refused {s : DedupeRelay ℤ} {a : Accepted} (hclass : a.pclass = .authorized)
    (now : UInt64) (hfull : ¬ HasRoom s.relay.tables.pending now a) :
    s.exec [] [] (.queueing a) now 0 =
      { s with
        relay := { s.relay with handlers := [.rechecking a.toId] }
        refused := s.refused ++ [a] } := by
  have hrefused : (a.enqueue now s.relay.tables.pending).2 = .rejectedGlobalCap := by
    cases hout : (a.enqueue now s.relay.tables.pending).2 with
    | stored => exact absurd ((enqueue_stored_iff hclass).mp hout) hfull
    | rejectedGlobalCap => rfl
  have hsame : (a.enqueue now s.relay.tables.pending).1 = s.relay.tables.pending := by
    unfold Accepted.enqueue at hrefused ⊢
    rw [hclass] at hrefused ⊢
    exact PendingStore.enqueueInner_rejected hrefused
  have htables : s.relay.tables.enqueuePending now a = s.relay.tables := by
    simp only [Tables.enqueuePending, hrefused, hsame]
  simp only [DedupeRelay.exec, DedupeRelay.refusals, if_neg hfull, Handler.exec, htables]
  rfl

section First

variable (pending : PendingStore QueuedFrame) (validators : ChainValidatorStore) (f : SealedFrame)

/-- The frame `f` has passed its token check. -/
def checkedRelay : DedupeRelay ℤ where
  relay := loadedRelay pending
  validators := validators
  dedupes := ∅
  checked := [f]
  passed := []
  nextNumber := 1
  makers := fun _ => none
  routed := []
  refused := []
  drops := []

/-- It has passed the table. -/
def passedRelay (now : ℤ) : DedupeRelay ℤ :=
  { checkedRelay pending validators f with
    dedupes := (∅ : SendDedupes ℤ).insert (f.key plainBlake3) now
    checked := []
    passed := [f]
    makers := fun key => if key = f.key plainBlake3 then some f else none }

/-- It has found no route. -/
def queueingRelay (now : ℤ) : DedupeRelay ℤ :=
  { passedRelay pending validators f now with
    relay := { loadedRelay pending with
      handlers := [.queueing (f.accepted 64)]
      nextTag := 65 }
    passed := []
    routed := [(f, f.accepted 64)] }

/-- The first frame of a relay without routes gets as far as the queue. -/
theorem reach_queueing (now : ℤ) :
    Reach (DedupeStep plainEnv 100 plainBlake3) (Genuine plainBlake3)
      (checkedRelay pending validators f) (queueingRelay pending validators f now) := by
  have hnew : dedupeCheckAndInsert (∅ : SendDedupes ℤ) ([], .replicate _ 0) (f.key plainBlake3)
      now = ((∅ : SendDedupes ℤ).insert (f.key plainBlake3) now, false) := rfl
  have hpassed : (checkedRelay pending validators f).dedupe plainBlake3 f ([], .replicate _ 0) now =
      passedRelay pending validators f now := by
    simp only [DedupeRelay.dedupe, checkedRelay, passedRelay, hnew, List.erase_cons_head,
      List.nil_append]
  have hrouted : (passedRelay pending validators f now).route f =
      queueingRelay pending validators f now := by
    simp only [DedupeRelay.route, queueingRelay, passedRelay, checkedRelay, List.erase_cons_head,
      List.nil_append]
    rfl
  have hdedupe : DedupeStep plainEnv 100 plainBlake3 (checkedRelay pending validators f)
      (.dedupe f ([], .replicate _ 0) now) (passedRelay pending validators f now) := by
    rw [← hpassed]
    exact .dedupe (List.mem_singleton_self _)
      fun hfull => absurd hfull (show ¬ SEND_DEDUPE_MAX_ENTRIES ≤ 0 by decide)
  have hroute : DedupeStep plainEnv 100 plainBlake3 (passedRelay pending validators f now)
      (.route f) (queueingRelay pending validators f now) := by
    rw [← hrouted]
    exact .route (List.mem_singleton_self f)
  exact (Reach.refl.snoc hdedupe nofun).snoc hroute trivial

end First

/-- A later frame with the same key. -/
theorem dedupe_known {s : DedupeRelay ℤ} {f : SealedFrame} {oldest : SendDedupeKey} {now : ℤ}
    (hknown : (s.dedupes.lookup (f.key blake3)).isSome) :
    s.dedupe blake3 f oldest now =
      { s with
        checked := s.checked.erase f
        drops := s.drops ++ [(f, s.delivered)] } := by
  simp only [DedupeRelay.dedupe, dedupeCheckAndInsert, if_pos hknown]

theorem recv_first (pending : PendingStore QueuedFrame) :
    DedupeStep plainEnv 100 plainBlake3
      (DedupeRelay.started (loadedRelay pending) (sampleValidators 0))
      (.recv sampleRand 100 [7] FRAME_TYPE_SEND (sampleBody 1))
      (checkedRelay pending (sampleValidators 1) (sampleSend 0 1)) := by
  have hrecv : (DedupeRelay.started (K := ℤ) (loadedRelay pending) (sampleValidators 0)).recv
      plainEnv sampleRand 100 [7] FRAME_TYPE_SEND (sampleBody 1) =
        checkedRelay pending (sampleValidators 1) (sampleSend 0 1) :=
    recv_sampleSend (i := 0) (.inl rfl) (DedupeRelay.started_validators _ _) rfl
  rw [← hrecv]
  exact .recv (.inl rfl)

theorem reach_first (pending : PendingStore QueuedFrame) :
    Reach (DedupeStep plainEnv 100 plainBlake3) (Genuine plainBlake3)
      (DedupeRelay.started (loadedRelay pending) (sampleValidators 0))
      (queueingRelay pending (sampleValidators 1) (sampleSend 0 1) 1000) :=
  (Reach.refl.snoc (recv_first pending) trivial).trans (reach_queueing pending _ _ 1000)

/-- The second send is read, in a state that the first one has left. -/
def DedupeRelay.retryRead (s : DedupeRelay ℤ) : DedupeRelay ℤ :=
  { s with
    validators := sampleValidators 2
    checked := [sampleSend 1 2]
    nextNumber := 2 }

/-- And it is dropped. -/
def DedupeRelay.retryDropped (s : DedupeRelay ℤ) : DedupeRelay ℤ :=
  { s with
    validators := sampleValidators 2
    checked := []
    nextNumber := 2
    drops := s.drops ++ [(sampleSend 1 2, s.delivered)] }

theorem same_key : (sampleSend 1 2).key plainBlake3 = (sampleSend 0 1).key plainBlake3 := by
  decide +kernel

/-- The retry in a state with the first send's entry. -/
theorem steps_retry {s : DedupeRelay ℤ} (hvalidators : s.validators = sampleValidators 1)
    (hnumber : s.nextNumber = 1) (hchecked : s.checked = [])
    (hdedupes : s.dedupes = (∅ : SendDedupes ℤ).insert ((sampleSend 0 1).key plainBlake3) 1000) :
    DedupeStep plainEnv 100 plainBlake3 s
        (.recv sampleRand 100 [7] FRAME_TYPE_SEND (sampleBody 2)) s.retryRead ∧
      DedupeStep plainEnv 100 plainBlake3 s.retryRead
        (.dedupe (sampleSend 1 2) ([], .replicate _ 0) 1001) s.retryDropped := by
  have hread : s.recv plainEnv sampleRand 100 [7] FRAME_TYPE_SEND (sampleBody 2) = s.retryRead := by
    have hrecv := recv_sampleSend (i := 1) (.inr rfl) hvalidators hnumber
    rw [hchecked] at hrecv
    exact hrecv
  have hknown : (s.retryRead.dedupes.lookup ((sampleSend 1 2).key plainBlake3)).isSome := by
    show (s.dedupes.lookup _).isSome = true
    rw [hdedupes, same_key, AList.lookup_insert]
    rfl
  have hdropped : s.retryRead.dedupe plainBlake3 (sampleSend 1 2) ([], .replicate _ 0) 1001 =
      s.retryDropped := by
    rw [dedupe_known hknown]
    simp only [DedupeRelay.retryRead, DedupeRelay.retryDropped, List.erase_cons_head]
    rfl
  constructor
  · rw [← hread]
    exact .recv (.inl rfl)
  · rw [← hdropped]
    refine .dedupe (List.mem_singleton_self _) fun hfull => ?_
    have hone : s.retryRead.dedupes.len = 1 := by
      show s.dedupes.len = 1
      rw [hdedupes]
      rfl
    rw [hone] at hfull
    exact absurd hfull (by decide)

/-- In a relay without room for the first send, its retry is dropped. -/
theorem retry_dropped {pending : PendingStore QueuedFrame}
    (hfull : ¬ HasRoom pending 100 ((sampleSend 0 1).accepted 64)) :
    ∃ s : DedupeRelay ℤ, Reach (DedupeStep plainEnv 100 plainBlake3) (fun _ _ => True)
        (DedupeRelay.started (loadedRelay pending) (sampleValidators 0)) s ∧
      (sampleSend 1 2, []) ∈ s.drops := by
  have hexec := exec_refused
    (s := queueingRelay pending (sampleValidators 1) (sampleSend 0 1) 1000) rfl 100 hfull
  have hstep : DedupeStep plainEnv 100 plainBlake3
      (queueingRelay pending (sampleValidators 1) (sampleSend 0 1) 1000)
      (.exec (.queueing ((sampleSend 0 1).accepted 64)) 100 0)
      ((queueingRelay pending (sampleValidators 1) (sampleSend 0 1) 1000).exec [] []
        (.queueing ((sampleSend 0 1).accepted 64)) 100 0) := .exec rfl
  rw [hexec] at hstep
  obtain ⟨hread, hdropped⟩ := steps_retry (s := { queueingRelay pending (sampleValidators 1)
      (sampleSend 0 1) 1000 with
    relay := { (queueingRelay pending (sampleValidators 1) (sampleSend 0 1) 1000).relay with
      handlers := [.rechecking ((sampleSend 0 1).accepted 64).toId] }
    refused := [] ++ [(sampleSend 0 1).accepted 64] }) rfl rfl rfl rfl
  refine ⟨_, ((((reach_first pending).imp fun _ _ _ => trivial).snoc hstep trivial).snoc hread
    trivial).snoc hdropped trivial, ?_⟩
  exact List.mem_singleton_self _

/-- A frame of `len` bytes for the peer `[9]`. -/
def heldFrame (len i : Nat) : Accepted where
  tag := i
  toId := [9]
  pclass := .authorized
  ttlSeconds := 604800
  bytes := List.replicate len 0

/-- 64 of them, in a store with the production caps (main.rs:443–461). -/
def heldPending (len : Nat) : PendingStore QueuedFrame where
  key := .replicate _ 0
  queues := (∅ : Dict PeerId (List QueuedFrame)).insert [9]
    ((List.range 64).map fun i => (heldFrame len i).entry 0)
  maxPerPeer := MAX_PENDING_PER_PEER
  maxDistinctPeers := MAX_PENDING_DISTINCT_PEERS
  maxTotalFrames := MAX_PENDING_TOTAL_FRAMES
  maxTotalBytes := MAX_PENDING_TOTAL_BYTES
  dirty := false
  perPeerPos := MAX_PENDING_PER_PEER_pos

theorem byteLen_entry (now : UInt64) (a : Accepted) :
    (Queued.entry (a.entry now)).byteLen = a.bytes.length := by
  show (hexEncode a.bytes).length / 2 = a.bytes.length
  rw [length_hexEncode]
  omega

theorem totalBytes_heldPending (len : Nat) : (heldPending len).totalBytes = 64 * len + 1 := by
  have hsum : ((((List.range 64).map fun i => (heldFrame len i).entry 0).map
      fun f => (Queued.entry f).byteLen).sum) = 64 * len := by
    rw [List.map_map]
    have hconst : ((fun f => (Queued.entry f).byteLen) ∘ fun i => (heldFrame len i).entry 0) =
        fun _ => len := by
      funext i
      show (Queued.entry ((heldFrame len i).entry 0)).byteLen = _
      rw [byteLen_entry, heldFrame, List.length_replicate]
    rw [hconst, List.map_const', List.length_range, List.sum_replicate_nat]
  have hentries : (heldPending len).queues.entries =
      [⟨[9], (List.range 64).map fun i => (heldFrame len i).entry 0⟩] := rfl
  rw [PendingStore.totalBytes, hentries]
  simp only [List.map_cons, List.map_nil, List.sum_cons, List.sum_nil, hsum, List.length_cons,
    List.length_nil]
  omega

/-- There is no room for the first send if the frames are large. -/
theorem not_hasRoom_heldPending {len : Nat} (hlen : MAX_PENDING_TOTAL_BYTES ≤ 64 * (len + 1)) :
    ¬ HasRoom (heldPending len) 100 ((sampleSend 0 1).accepted 64) := by
  rintro ⟨_, _, hbytes⟩
  have hnew : (heldPending len).queues.lookup samplePeer.1 = none := by
    rw [heldPending, AList.lookup_insert_ne (by decide), AList.lookup_empty]
  have hreclaimed : (heldPending len).reclaimed ((sampleSend 0 1).accepted 64).toId = 0 := by
    have hqueue : (heldPending len).queue samplePeer.1 = [] := by
      rw [PendingStore.queue, hnew]
      rfl
    rw [PendingStore.reclaimed]
    show (if (heldPending len).perPeerEviction samplePeer.1 then _ else 0) = 0
    rw [PendingStore.perPeerEviction, hqueue]
    rfl
  have hincoming : 64 ≤ (heldPending len).incoming ((sampleSend 0 1).accepted 64).toId
      (((sampleSend 0 1).accepted 64).entry 100) := by
    rw [PendingStore.incoming, byteLen_entry]
    have hframe : 64 ≤ ((sampleSend 0 1).accepted 64).bytes.length := by decide +kernel
    omega
  have hmax : (heldPending len).maxTotalBytes = MAX_PENDING_TOTAL_BYTES := rfl
  rw [totalBytes_heldPending, hreclaimed, hmax] at hbytes
  omega

theorem started_heldPending (len : Nat) : Started (loadedRelay (heldPending len)) where
  routes := rfl
  handlers := rfl
  history := rfl
  homed := by
    intro p f hf
    have hqueue : f ∈ (heldPending len).queue p := hf
    rw [PendingStore.queue, heldPending] at hqueue
    by_cases hp : p = [9]
    · subst hp
      rw [AList.lookup_insert, Option.getD_some] at hqueue
      obtain ⟨i, hi, rfl⟩ := List.mem_map.mp hqueue
      exact ⟨rfl, List.mem_range.mp hi⟩
    · rw [AList.lookup_insert_ne hp, AList.lookup_empty] at hqueue
      cases hqueue
  once := by
    intro p
    show (((heldPending len).queue p).map QueuedFrame.origin).Nodup
    rw [PendingStore.queue, heldPending]
    by_cases hp : p = [9]
    · subst hp
      rw [AList.lookup_insert, Option.getD_some, List.map_map]
      refine List.nodup_range.map_on ?_
      intro i _ j _ heq
      exact congrArg Accepted.tag heq
    · rw [AList.lookup_insert_ne hp, AList.lookup_empty]
      exact List.nodup_nil

/-- A relay that has just started drops the retry of a frame it could not
queue, and has delivered nothing. -/
theorem refused_frame_not_retried :
    ∃ (relay : RelayState) (validators : ChainValidatorStore) (s : DedupeRelay ℤ), Started relay ∧
      Reach (DedupeStep plainEnv 100 plainBlake3) (fun _ _ => True)
        (DedupeRelay.started relay validators) s ∧ ¬ s.NothingLost := by
  -- 64 frames of a byte less than 1 MiB
  have hfull : ¬ HasRoom (heldPending 1048575) 100 ((sampleSend 0 1).accepted 64) :=
    not_hasRoom_heldPending (by decide)
  obtain ⟨s, hrun, hdrop⟩ := retry_dropped hfull
  refine ⟨_, _, s, started_heldPending 1048575, hrun, fun hlost => ?_⟩
  obtain ⟨g, hg, _⟩ := hlost _ hdrop
  cases hg

/-- The first send is stored. -/
def storedRelay : DedupeRelay ℤ :=
  (queueingRelay emptyRelay.tables.pending (sampleValidators 1) (sampleSend 0 1) 1000).exec [] []
    (.queueing ((sampleSend 0 1).accepted 64)) 100 0

/-- In a relay with an empty queue the retry is dropped as well, and the first
send had been stored. -/
theorem dropped_frames_delivered_stored :
    storedRelay.retryDropped.drops ≠ [] ∧ storedRelay.retryDropped.NothingLost := by
  have hroom : HasRoom emptyRelay.tables.pending 100 ((sampleSend 0 1).accepted 64) := by
    decide +kernel
  have hrefused : storedRelay.refused = [] := by
    show [] ++ (if HasRoom emptyRelay.tables.pending 100 _ then [] else _) = []
    rw [if_pos hroom]
    rfl
  obtain ⟨hread, hdropped⟩ := steps_retry (s := storedRelay) rfl rfl rfl rfl
  have hgenuine : Genuine plainBlake3 storedRelay.retryRead
      (.dedupe (sampleSend 1 2) ([], .replicate _ 0) 1001) := by
    intro _ g hmaker
    have hmaker' : (if (sampleSend 1 2).key plainBlake3 = (sampleSend 0 1).key plainBlake3 then
        some (sampleSend 0 1) else none) = some g := hmaker
    rw [if_pos same_key] at hmaker'
    cases hmaker'
    refine ⟨rfl, by decide +kernel, ?_, ?_⟩
    · rintro (hpassed | ⟨a, _, hqueueing⟩)
      · cases hpassed
      · cases List.mem_singleton.mp hqueueing
    · rintro ⟨a, _, hin⟩
      have hin' : a ∈ storedRelay.refused := hin
      rw [hrefused] at hin'
      cases hin'
  have hrun : Reach (DedupeStep plainEnv 100 plainBlake3) (Genuine plainBlake3)
      (DedupeRelay.started (loadedRelay emptyRelay.tables.pending) (sampleValidators 0))
      storedRelay.retryDropped :=
    (((reach_first _).snoc (.exec rfl) trivial).snoc hread trivial).snoc hdropped hgenuine
  refine ⟨?_, dropped_frames_delivered hrun⟩
  exact List.append_ne_nil_of_right_ne_nil _ (List.cons_ne_nil _ _)

end Retry

end Pizzini.Delivery
