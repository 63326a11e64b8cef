import Mathlib.Logic.Function.Basic
import Pizzini.Lib.Runs
import Pizzini.Relay.PendingDisk

/-!
# Runs of the offline queue

The calls that the relay makes on its `PendingStore`, one after the other
under one lock (main.rs:783): the two enqueues, `drain`, `gc_expired`, `flush`,
and a graceful restart, in which the old store is dropped and a new one loads
its file under the same caps. Frames are built by `PendingFrame::new`, as
`enqueue_pending` does (main.rs:2091–2093).

`OfflineQueue` is the store with its files. It also notes what the code does
not keep: the last reading of the clock, and for each peer what was `Stored`
for it since its last drain.
-/

namespace Pizzini.Relay

open Runs Wire

/-- What was stored for a peer: the bytes of a frame, and its expiry. -/
abbrev Arrival := Bytes × UInt64

/-- The queue entry of an arrival. -/
def Arrival.frame (a : Arrival) : PendingFrame := PendingFrame.new a.1 a.2

/-- A `PendingStore`, its files, and what has happened to it. -/
structure OfflineQueue where
  store : PendingStore PendingFrame
  disk : PendingDisk
  clock : UInt64
  arrivals : PeerId → List Arrival

/-- A call on the store. Those that read the clock come with its reading. -/
inductive QueueCall where
  | enqueue (peerId : PeerId) (a : Arrival)
  | enqueueSeed (peerId : PeerId) (a : Arrival)
  | drain (peerId : PeerId) (now : UInt64)
  | gcExpired (now : UInt64)
  | flush
  | reload (now : UInt64)

namespace OfflineQueue

/-- An enqueue for `peerId` returned. -/
def offered (s : OfflineQueue) (peerId : PeerId) (a : Arrival)
    (r : PendingStore PendingFrame × EnqueueOutcome) : OfflineQueue :=
  { s with
    store := r.1
    arrivals :=
      match r.2 with
      | .stored => Function.update s.arrivals peerId (s.arrivals peerId ++ [a])
      | .rejectedGlobalCap => s.arrivals }

/-- `load_or_create` with the caps of a store that has just been dropped. -/
def reopen (env : PendingEnv) (nonce : Nonce) (fresh : Key) (now : UInt64) (s : OfflineQueue) :
    Except IoError (PendingStore PendingFrame × PendingDisk) :=
  PendingStore.loadOrCreate env fresh s.store.maxPerPeer s.store.maxDistinctPeers
    s.store.maxTotalFrames s.store.maxTotalBytes s.store.perPeerPos now
    (s.store.drop env nonce s.disk)

/-- One call. A flush or a restart draws the nonce it encrypts under. -/
inductive Step (env : PendingEnv) : OfflineQueue → QueueCall → OfflineQueue → Prop where
  | enqueue {s : OfflineQueue} {peerId : PeerId} {a : Arrival} :
      Step env s (.enqueue peerId a) (s.offered peerId a (s.store.enqueue peerId a.frame))
  | enqueueSeed {s : OfflineQueue} {peerId : PeerId} {a : Arrival} :
      Step env s (.enqueueSeed peerId a) (s.offered peerId a (s.store.enqueueSeed peerId a.frame))
  | drain {s : OfflineQueue} {peerId : PeerId} {now : UInt64} :
      Step env s (.drain peerId now)
        { s with
          store := (s.store.drain now peerId).1
          clock := now
          arrivals := Function.update s.arrivals peerId [] }
  | gcExpired {s : OfflineQueue} {now : UInt64} :
      Step env s (.gcExpired now)
        { s with
          store := (s.store.gcExpired now).1
          clock := now }
  | flush {s : OfflineQueue} {nonce : Nonce} :
      Step env s .flush
        { s with
          store := (s.store.flush env nonce s.disk).1
          disk := (s.store.flush env nonce s.disk).2 }
  | reload {s : OfflineQueue} {now : UInt64} {nonce : Nonce} {fresh : Key}
      {store : PendingStore PendingFrame} {disk : PendingDisk}
      (h : s.reopen env nonce fresh now = .ok (store, disk)) :
      Step env s (.reload now)
        { s with
          store
          disk
          clock := now }

/-- The clock does not go back. -/
def Forward (s : OfflineQueue) : QueueCall → Prop
  | .drain _ now | .gcExpired now | .reload now => s.clock ≤ now
  | .enqueue _ _ | .enqueueSeed _ _ | .flush => True

/-- An empty store, as `load_or_create` makes it in an empty directory. -/
structure Started (s : OfflineQueue) : Prop where
  queues : s.store.queues = ∅
  clean : s.store.dirty = false
  disk : s.disk = ⟨some s.store.key.1, none⟩
  arrivals : s.arrivals = fun _ => []

end OfflineQueue

/-! ## What a call leaves as it is -/

namespace PendingStore

/-- The four caps of a store. -/
structure Caps where
  maxPerPeer : Nat
  maxDistinctPeers : Nat
  maxTotalFrames : Nat
  maxTotalBytes : Nat
  deriving DecidableEq, Repr

variable {F : Type}

def caps (store : PendingStore F) : Caps :=
  ⟨store.maxPerPeer, store.maxDistinctPeers, store.maxTotalFrames, store.maxTotalBytes⟩

variable [Queued F]

theorem enqueueInner_fields (store : PendingStore F) (peerId : PeerId) (frame : F) (cap : Nat) :
    (store.enqueueInner peerId frame cap).1.key = store.key ∧
      (store.enqueueInner peerId frame cap).1.caps = store.caps := by
  rcases enqueueInner_eq store peerId frame cap with heq | heq
  · rw [heq]
    exact ⟨rfl, rfl⟩
  · rw [heq]
    exact ⟨rfl, rfl⟩

theorem drain_fields (now : UInt64) (store : PendingStore F) (peerId : PeerId) :
    (store.drain now peerId).1.key = store.key ∧ (store.drain now peerId).1.caps = store.caps ∧
      ((store.drain now peerId).1 = store ∨ (store.drain now peerId).1.dirty = true) := by
  unfold drain
  cases store.queues.lookup peerId with
  | none => exact ⟨rfl, rfl, .inl rfl⟩
  | some _ => exact ⟨rfl, rfl, .inr rfl⟩

/-- Only the queue of the frame's recipient can change. -/
theorem enqueueInner_lookup_ne (store : PendingStore F) {peerId peerId' : PeerId}
    (hne : peerId' ≠ peerId) (frame : F) (cap : Nat) :
    (store.enqueueInner peerId frame cap).1.queues.lookup peerId' =
      store.queues.lookup peerId' := by
  rcases enqueueInner_eq store peerId frame cap with heq | heq
  · rw [heq]
  · rw [heq]
    exact AList.lookup_insert_ne hne

/-- A frame refused at a global cap changes nothing. -/
theorem enqueueInner_rejected {store : PendingStore F} {peerId : PeerId} {frame : F} {cap : Nat}
    (h : (store.enqueueInner peerId frame cap).2 = .rejectedGlobalCap) :
    (store.enqueueInner peerId frame cap).1 = store := by
  rcases enqueueInner_eq store peerId frame cap with heq | heq
  · rw [heq]
  · rw [heq] at h
    cases h

end PendingStore

/-! ## The files along a run -/

variable {env : PendingEnv}

namespace PendingStore

/-- The queues on disk after the store was flushed or dropped: its own, or, if
it was clean, those that were there. -/
def written (store : PendingStore PendingFrame) (saved : Dict PeerId (List PendingFrame)) :
    Dict PeerId (List PendingFrame) :=
  if store.dirty then store.queues else saved

theorem saved_drop {store : PendingStore PendingFrame} {disk : PendingDisk}
    {saved : Dict PeerId (List PendingFrame)} (h : Saved env disk store.key saved)
    (nonce : Nonce) : Saved env (store.drop env nonce disk) store.key (store.written saved) := by
  unfold drop written
  cases store.dirty with
  | false => exact h
  | true => exact ⟨h.keyFile, .inr ⟨nonce, rfl⟩⟩

/-- A flush writes what a drop would, and leaves the store clean. -/
theorem flush_eq (nonce : Nonce) (store : PendingStore PendingFrame) (disk : PendingDisk) :
    store.flush env nonce disk = ({ store with dirty := false }, store.drop env nonce disk) := by
  unfold flush drop
  cases hdirty : store.dirty with
  | false =>
    refine Prod.ext ?_ rfl
    cases store
    cases hdirty
    rfl
  | true => rfl

end PendingStore

namespace OfflineQueue

/-- A restart succeeds, and loads the live part of what was written last. -/
theorem reopen_saved (henv : env.Lawful) {s : OfflineQueue}
    {saved : Dict PeerId (List PendingFrame)} (h : Saved env s.disk s.store.key saved)
    (nonce : Nonce) (fresh : Key) (now : UInt64) :
    ∃ loaded : Dict PeerId (List PendingFrame),
      (∀ p, loaded.lookup p = liveQueue now ((s.store.written saved).lookup p)) ∧
      s.reopen env nonce fresh now =
        .ok ({ s.store with
                queues := loaded
                dirty := false }, s.store.drop env nonce s.disk) :=
  PendingStore.loadOrCreate_saved henv (PendingStore.saved_drop h nonce) fresh _ _ _ _ _ now

/-- An empty directory is where every run starts. -/
theorem Started.saved {s : OfflineQueue} (h : Started s) : Saved env s.disk s.store.key ∅ where
  keyFile := by rw [h.disk]
  pending := .inl ⟨by rw [h.disk], rfl⟩

end OfflineQueue

end Pizzini.Relay
