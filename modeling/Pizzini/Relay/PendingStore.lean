import Pizzini.Lib.Dict
import Pizzini.Relay.EncryptedFile

/-!
# `pending_store.rs`: the offline queue

Frames for a peer that is not connected wait in a queue of their own, bounded
per peer and in total. The store's operations look at a queued frame only
through its entry (its hex text and its expiry), so they are stated for any
type `F` of frames that has one (`Queued`): the relay queues `PendingFrame`s,
and proofs about the relay queue frames that remember where they came from.

`queue` is what the rest of the development sees of a store: enqueueing evicts
a front part of the recipient's queue and appends (`enqueueInner_cases`),
draining takes a whole queue, less what has expired (`queue_drain`), and
collecting garbage filters every queue (`queue_gcExpired`).
-/

namespace Pizzini.Relay

open Wire

/-- A recipient's identity key. -/
abbrev PeerId := Bytes

/-! ## Frames (pending_store.rs:73–118) -/

/-- `PendingFrame`. -/
structure PendingFrame where
  bytesHex : Bytes
  expiresAtUnix : UInt64
  deriving DecidableEq, Repr

/-- `PendingFrame::new`. -/
def PendingFrame.new (bytes : Bytes) (expiresAtUnix : UInt64) : PendingFrame where
  bytesHex := hexEncode bytes
  expiresAtUnix := expiresAtUnix

/-- `PendingFrame::bytes`. -/
def PendingFrame.bytes (f : PendingFrame) : Bytes := (hexDecode f.bytesHex).getD []

/-- `PendingFrame::is_expired`. -/
def PendingFrame.isExpired (f : PendingFrame) (nowUnix : UInt64) : Bool :=
  decide (f.expiresAtUnix ≤ nowUnix)

/-- `PendingFrame::byte_len`. -/
def PendingFrame.byteLen (f : PendingFrame) : Nat := f.bytesHex.length / 2

/-- What was queued is what is forwarded. -/
theorem PendingFrame.bytes_new (bytes : Bytes) (expiresAtUnix : UInt64) :
    (PendingFrame.new bytes expiresAtUnix).bytes = bytes := by
  rw [PendingFrame.bytes, PendingFrame.new, hexDecode_hexEncode]
  rfl

/-- A type of queued frames, each with its stored entry. -/
class Queued (F : Type) where
  entry : F → PendingFrame

instance : Queued PendingFrame := ⟨id⟩

/-- A queued frame is past its expiry. -/
def Queued.isExpired {F : Type} [Queued F] (nowUnix : UInt64) (f : F) : Bool :=
  (entry f).isExpired nowUnix

/-! ## The store (pending_store.rs:128–183) -/

/-- `PendingStore`, less its path. The per-peer cap is positive: with a cap of
zero the eviction loop would not end. -/
structure PendingStore (F : Type) where
  key : Key
  queues : Dict PeerId (List F)
  maxPerPeer : Nat
  maxDistinctPeers : Nat
  maxTotalFrames : Nat
  maxTotalBytes : Nat
  dirty : Bool
  perPeerPos : 0 < maxPerPeer

/-- `EnqueueOutcome`. -/
inductive EnqueueOutcome where
  | stored
  | rejectedGlobalCap
  deriving DecidableEq, Repr

/-- `seed_distinct_peers_cap`. -/
def seedDistinctPeersCap (maxDistinctPeers : Nat) : Nat :=
  maxDistinctPeers - maxDistinctPeers / 4

namespace PendingStore

variable {F : Type}

/-- The loop `while queue.len() >= max_per_peer { queue.pop_front() }`. -/
def evict (maxPerPeer : Nat) : List F → List F
  | [] => []
  | f :: rest => if maxPerPeer ≤ rest.length + 1 then evict maxPerPeer rest else f :: rest

theorem evict_suffix (cap : Nat) (q : List F) : ∃ evicted, q = evicted ++ evict cap q := by
  induction q with
  | nil => exact ⟨[], rfl⟩
  | cons f rest ih =>
    unfold evict
    split
    · obtain ⟨evicted, hrest⟩ := ih
      refine ⟨f :: evicted, ?_⟩
      rw [List.cons_append, ← hrest]
    · exact ⟨[], rfl⟩

variable [Queued F]

/-- `peer_id`'s queue; a peer without one has nothing queued. -/
def queue (store : PendingStore F) (peerId : PeerId) : List F :=
  (store.queues.lookup peerId).getD []

/-- `total_frames`. -/
def totalFrames (store : PendingStore F) : Nat :=
  (store.queues.entries.map fun e => e.2.length).sum

/-- `total_bytes`: frame bytes plus each queue's key bytes. -/
def totalBytes (store : PendingStore F) : Nat :=
  (store.queues.entries.map fun e => (e.2.map fun f => (Queued.entry f).byteLen).sum).sum +
    (store.queues.entries.map fun e => e.1.length).sum

/-- `is_new_peer` in `enqueue_inner`. -/
def isNewPeer (store : PendingStore F) (peerId : PeerId) : Bool :=
  (store.queues.lookup peerId).isNone

/-- `per_peer_eviction` in `enqueue_inner`: the recipient's queue is full. -/
def perPeerEviction (store : PendingStore F) (peerId : PeerId) : Bool :=
  decide (store.maxPerPeer ≤ (store.queue peerId).length)

/-- `incoming` in `enqueue_inner`: the bytes the frame adds, with its
recipient's key if that is new. -/
def incoming (store : PendingStore F) (peerId : PeerId) (frame : F) : Nat :=
  (Queued.entry frame).byteLen + if store.isNewPeer peerId then peerId.length else 0

/-- `reclaimed` in `enqueue_inner`: the bytes an eviction frees. -/
def reclaimed (store : PendingStore F) (peerId : PeerId) : Nat :=
  if store.perPeerEviction peerId then
    ((store.queue peerId).head?.map fun f => (Queued.entry f).byteLen).getD 0
  else 0

/-- `enqueue_inner` (pending_store.rs:327–378): refuse at the distinct-peer,
the frame or the byte cap, else make room and append. -/
def enqueueInner (store : PendingStore F) (peerId : PeerId) (frame : F) (distinctPeerCap : Nat) :
    PendingStore F × EnqueueOutcome :=
  if store.isNewPeer peerId ∧ distinctPeerCap ≤ store.queues.len then (store, .rejectedGlobalCap)
  else if ¬ store.perPeerEviction peerId ∧ store.maxTotalFrames ≤ store.totalFrames then
    (store, .rejectedGlobalCap)
  else if store.maxTotalBytes + store.reclaimed peerId <
      store.totalBytes + store.incoming peerId frame then
    (store, .rejectedGlobalCap)
  else
    let queue := evict store.maxPerPeer (store.queue peerId) ++ [frame]
    ({ store with queues := store.queues.insert peerId queue, dirty := true }, .stored)

/-- `enqueue`: a token-authorised frame may use the full distinct-peer cap. -/
def enqueue (store : PendingStore F) (peerId : PeerId) (frame : F) :
    PendingStore F × EnqueueOutcome :=
  store.enqueueInner peerId frame store.maxDistinctPeers

/-- `enqueue_seed`: an unauthenticated frame may not use the reserved slots. -/
def enqueueSeed (store : PendingStore F) (peerId : PeerId) (frame : F) :
    PendingStore F × EnqueueOutcome :=
  store.enqueueInner peerId frame (seedDistinctPeersCap store.maxDistinctPeers)

/-- `drain` (pending_store.rs:384–399). -/
def drain (now : UInt64) (store : PendingStore F) (peerId : PeerId) : PendingStore F × List F :=
  match store.queues.lookup peerId with
  | none => (store, [])
  | some queue =>
    ({ store with queues := store.queues.erase peerId, dirty := true },
      queue.filter fun f => !Queued.isExpired now f)

/-- `gc_expired` (pending_store.rs:406–420). -/
def gcExpired (now : UInt64) (store : PendingStore F) : PendingStore F × Nat :=
  let filtered := store.queues.mapVals fun queue => queue.filter fun f => !Queued.isExpired now f
  let dropped := (store.queues.entries.map fun e =>
    e.2.length - (e.2.filter fun f => !Queued.isExpired now f).length).sum
  ({ store with
      queues := filtered.retain fun _ queue => !queue.isEmpty
      dirty := store.dirty || decide (0 < dropped) }, dropped)

/-! ## The operations through `queue` -/

/-- An enqueue changes nothing, or the recipient's queue, and marks the store. -/
theorem enqueueInner_eq (store : PendingStore F) (peerId : PeerId) (frame : F) (cap : Nat) :
    store.enqueueInner peerId frame cap = (store, .rejectedGlobalCap) ∨
      store.enqueueInner peerId frame cap =
        ({ store with
            queues := store.queues.insert peerId
              (evict store.maxPerPeer (store.queue peerId) ++ [frame])
            dirty := true }, .stored) := by
  unfold enqueueInner
  split
  · exact .inl rfl
  · split
    · exact .inl rfl
    · split
      · exact .inl rfl
      · exact .inr rfl

/-- A refused frame changes nothing; a stored one stands at the end of its
recipient's queue, of which some oldest frames may have gone. -/
theorem enqueueInner_cases (store : PendingStore F) (peerId : PeerId) (frame : F) (cap : Nat) :
    store.enqueueInner peerId frame cap = (store, .rejectedGlobalCap) ∨
      ∃ store' evicted kept, store.enqueueInner peerId frame cap = (store', .stored) ∧
        store.queue peerId = evicted ++ kept ∧ store'.queue peerId = kept ++ [frame] ∧
        ∀ peerId' ≠ peerId, store'.queue peerId' = store.queue peerId' := by
  rcases enqueueInner_eq store peerId frame cap with heq | heq
  · exact .inl heq
  · obtain ⟨evicted, hsuffix⟩ := evict_suffix store.maxPerPeer (store.queue peerId)
    refine .inr ⟨_, evicted, _, heq, hsuffix, ?_, fun peerId' hne => ?_⟩
    · rw [queue, AList.lookup_insert]
      rfl
    · rw [queue, AList.lookup_insert_ne hne]
      rfl

/-- Draining returns the live frames of the queue and leaves it empty. -/
theorem queue_drain (now : UInt64) (store : PendingStore F) (peerId : PeerId) :
    (store.drain now peerId).2 = (store.queue peerId).filter (fun f => !Queued.isExpired now f) ∧
      (store.drain now peerId).1.queue peerId = [] ∧
      ∀ peerId' ≠ peerId, (store.drain now peerId).1.queue peerId' = store.queue peerId' := by
  unfold drain queue
  cases hlook : store.queues.lookup peerId with
  | none =>
    refine ⟨rfl, ?_, fun _ _ => rfl⟩
    simp only [hlook]
    rfl
  | some q =>
    refine ⟨rfl, ?_, fun peerId' hne => ?_⟩
    · simp only [AList.lookup_erase]
      rfl
    · simp only [AList.lookup_erase_ne hne]

/-- Garbage collection keeps the live frames of every queue. -/
theorem queue_gcExpired (now : UInt64) (store : PendingStore F) (peerId : PeerId) :
    (store.gcExpired now).1.queue peerId =
      (store.queue peerId).filter fun f => !Queued.isExpired now f := by
  simp only [gcExpired, queue, AList.lookup_retain, AList.lookup_mapVals]
  cases store.queues.lookup peerId with
  | none => rfl
  | some q =>
    simp only [Option.map_some, Option.getD_some]
    by_cases hempty : (q.filter fun f => !Queued.isExpired now f) = []
    · rw [hempty]
      rfl
    · rw [Option.filter_some, if_pos]
      · rfl
      · rw [Bool.not_eq_true', List.isEmpty_eq_false_iff]
        exact hempty

end PendingStore

end Pizzini.Relay
