import Pizzini.Relay.PlainEnv
import Pizzini.Relay.PendingRuns

/-!
# A concrete environment for the offline queue

The cipher of `PlainEnv`, and a codec for the queue document that spells it
with that module's records: one record for each queue, under its hex key, in
which the frames of the queue are again a sequence of records. `started` is
the state of a relay that has just started in an empty directory.
-/

namespace Pizzini.Relay

open Wire

/-- A frame as a record: its hex text and its expiry. -/
def frameRecord (f : PendingFrame) : JournalRecord where
  key := f.bytesHex
  entry :=
    { rootHex := []
      length := 0
      lastIndex := 0
      lastValueHex := []
      registeredUnix := f.expiresAtUnix
      lastUsedUnix := 0 }

/-- A queue as a record: its hex key and its frames. -/
def queueRecord (e : Sigma fun _ : Bytes => List PendingFrame) : JournalRecord where
  key := e.1
  entry :=
    { rootHex := plainRecords (e.2.map frameRecord)
      length := 0
      lastIndex := 0
      lastValueHex := []
      registeredUnix := 0
      lastUsedUnix := 0 }

def recordFrame (r : JournalRecord) : PendingFrame := ⟨r.key, r.entry.registeredUnix⟩

def recordQueue (r : JournalRecord) : Option (Sigma fun _ : Bytes => List PendingFrame) := do
  let frames ← takeRecords r.entry.rootHex.length r.entry.rootHex
  return ⟨r.key, frames.map recordFrame⟩

theorem recordQueue_queueRecord (e : Sigma fun _ : Bytes => List PendingFrame) :
    recordQueue (queueRecord e) = some e := by
  have hframes : (e.2.map frameRecord).map recordFrame = e.2 := by
    rw [List.map_map]
    exact List.map_id _
  simp only [recordQueue, queueRecord, takeRecords_plainRecords _ (length_le_plainRecords _),
    Option.bind_eq_bind, Option.bind_some, hframes]
  rfl

theorem mapM_recordQueue (es : List (Sigma fun _ : Bytes => List PendingFrame)) :
    (es.map queueRecord).mapM recordQueue = some es := by
  induction es with
  | nil => rfl
  | cons e es ih =>
    rw [List.map_cons, List.mapM_cons, recordQueue_queueRecord, ih]
    rfl

/-- The codec of the document. -/
def plainPendingSerde : PendingSerde where
  toVec d := plainRecords (d.queues.entries.map queueRecord)
  fromSlice bs := do
    let rs ← takeRecords bs.length bs
    let entries ← rs.mapM recordQueue
    if h : (entries.map Sigma.fst).Nodup then some ⟨⟨entries, h⟩⟩ else none

theorem plainPendingSerde_lawful : plainPendingSerde.Lawful where
  round := by
    intro d
    refine ⟨d, ?_, List.Perm.refl _⟩
    simp only [plainPendingSerde, takeRecords_plainRecords _ (length_le_plainRecords _),
      mapM_recordQueue, Option.bind_eq_bind, Option.bind_some]
    rw [dif_pos (show (d.queues.entries.map Sigma.fst).Nodup from d.queues.nodupKeys)]

def plainPendingEnv : PendingEnv where
  cipher := plainCipher
  serde := plainPendingSerde

theorem plainPendingEnv_lawful : plainPendingEnv.Lawful where
  cipher := plainCipher_lawful
  serde := plainPendingSerde_lawful

namespace OfflineQueue

/-- An empty store in a directory that holds its key. -/
def started (key : Key) (maxPerPeer maxDistinctPeers maxTotalFrames maxTotalBytes : Nat)
    (perPeerPos : 0 < maxPerPeer) : OfflineQueue where
  store :=
    { key
      queues := ∅
      maxPerPeer
      maxDistinctPeers
      maxTotalFrames
      maxTotalBytes
      dirty := false
      perPeerPos }
  disk := ⟨some key.1, none⟩
  clock := 0
  arrivals := fun _ => []

theorem started_started (key : Key) (maxPerPeer maxDistinctPeers maxTotalFrames maxTotalBytes : Nat)
    (perPeerPos : 0 < maxPerPeer) :
    Started
      (started key maxPerPeer maxDistinctPeers maxTotalFrames maxTotalBytes perPeerPos) where
  queues := rfl
  clean := rfl
  disk := rfl
  arrivals := rfl

/-- It is what `load_or_create` makes of an empty directory. -/
theorem loadOrCreate_fresh (env : PendingEnv) (key : Key)
    (maxPerPeer maxDistinctPeers maxTotalFrames maxTotalBytes : Nat)
    (perPeerPos : 0 < maxPerPeer) (now : UInt64) :
    PendingStore.loadOrCreate env key maxPerPeer maxDistinctPeers maxTotalFrames maxTotalBytes
        perPeerPos now PendingDisk.fresh =
      .ok ((started key maxPerPeer maxDistinctPeers maxTotalFrames maxTotalBytes perPeerPos).store,
        (started key maxPerPeer maxDistinctPeers maxTotalFrames maxTotalBytes perPeerPos).disk) :=
  rfl

/-- A store for two frames a peer and five bytes in all. -/
def smallStart : OfflineQueue :=
  started (FixedBytes.replicate KEY_LEN 0) 2 4 8 5 (by decide)

/-- One more enqueue of a two-byte frame. -/
def enqueued (s : OfflineQueue) (p : PeerId) (b : UInt8) : OfflineQueue :=
  s.offered p ([b, b], 9) (s.store.enqueue p (Arrival.frame ([b, b], 9)))

end OfflineQueue

end Pizzini.Relay
