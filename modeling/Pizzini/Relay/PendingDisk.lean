import Pizzini.Lib.Rows
import Pizzini.Relay.PendingStore

/-!
# The offline queue on disk

`PendingStore` keeps its queues in memory and rewrites one encrypted JSON file
when it is flushed or dropped. This module models that file and the key file
beside it, the document they hold (`PendingDoc`, a map keyed by hex peer ids),
and `load_or_create`, which drops what has expired since.

The cipher and `serde_json` are parameters (`PendingEnv`). What a file stands
for is `Saved`: the queues of the store that was last written. Loading returns
the live part of them (`loadOrCreate_saved`).
-/

namespace Pizzini.Relay

open Wire

/-- The store's `AAD` (pending_store.rs:67). -/
def PENDING_AAD : Bytes := "pizzini.relay.pending.v1".toUTF8.toList

/-- `StoreDoc` (pending_store.rs:123–126): the queues by hex peer id. -/
structure PendingDoc where
  queues : Dict Bytes (List PendingFrame)

/-- `serde_json` at the document type. -/
structure PendingSerde where
  toVec : PendingDoc → Bytes
  fromSlice : Bytes → Option PendingDoc

/-- What is used of `serde_json`: a document round trips, its map's entries in
any order. -/
structure PendingSerde.Lawful (s : PendingSerde) : Prop where
  round : ∀ d, ∃ d', s.fromSlice (s.toVec d) = some d' ∧ d'.queues.entries.Perm d.queues.entries

/-- The store's surroundings. -/
structure PendingEnv where
  cipher : Cipher
  serde : PendingSerde

structure PendingEnv.Lawful (env : PendingEnv) : Prop where
  cipher : env.cipher.Lawful
  serde : env.serde.Lawful

/-- `pending.key` and `pending.bin`; `none` is a missing file. -/
structure PendingDisk where
  keyFile : Option Bytes
  pending : Option Bytes
  deriving DecidableEq, Repr

/-- A state directory nothing has been written to. -/
def PendingDisk.fresh : PendingDisk := ⟨none, none⟩

/-- The document of some queues, an empty one left out (pending_store.rs:426–433). -/
def pendingDoc (queues : Dict PeerId (List PendingFrame)) : PendingDoc where
  queues := queues.entries.foldl
    (fun out e => if e.2.isEmpty then out else out.insert (hexEncode e.1) e.2) ∅

/-- `drop_expired` (pending_store.rs:473–489): a key that is not hex is skipped. -/
def dropExpired (doc : PendingDoc) (now : UInt64) : Dict PeerId (List PendingFrame) :=
  doc.queues.entries.foldl
    (fun map e =>
      match hexDecode e.1 with
      | none => map
      | some peerId =>
        let live := e.2.filter fun f => !f.isExpired now
        if live.isEmpty then map else map.insert peerId live) ∅

variable (env : PendingEnv)

/-- `persist` (pending_store.rs:425–437): the bytes `write_atomic` puts in the
place of the old file. -/
def persist (key : Key) (nonce : Nonce) (queues : Dict PeerId (List PendingFrame)) : Bytes :=
  encryptWithAad env.cipher key nonce (env.serde.toVec (pendingDoc queues)) PENDING_AAD

namespace PendingStore

/-- `flush` (pending_store.rs:442–449); the write succeeds. -/
def flush (nonce : Nonce) (store : PendingStore PendingFrame) (disk : PendingDisk) :
    PendingStore PendingFrame × PendingDisk :=
  if !store.dirty then (store, disk)
  else ({ store with dirty := false },
    { disk with pending := some (persist env store.key nonce store.queues) })

/-- `Drop` (pending_store.rs:452–468): what a store that goes out of scope
leaves on disk. -/
def drop (nonce : Nonce) (store : PendingStore PendingFrame) (disk : PendingDisk) : PendingDisk :=
  if store.dirty then { disk with pending := some (persist env store.key nonce store.queues) }
  else disk

/-- The file as `load_or_create` reads it: decrypted (with the legacy
fallback), parsed, and rid of expired frames. -/
def readPending (key : Key) (now : UInt64) :
    Option Bytes → Except IoError (Dict PeerId (List PendingFrame))
  | none => .ok ∅
  | some bytes => do
    let plaintext ← match decryptWithAad env.cipher key bytes PENDING_AAD with
      | .ok p => .ok p
      | .error _ => decrypt env.cipher key bytes
    match env.serde.fromSlice plaintext with
    | some doc => .ok (dropExpired doc now)
    | none => .error .json

/-- `load_or_create` (pending_store.rs:210–252); `fresh` is the key it draws
if there is none. -/
def loadOrCreate (fresh : Key) (maxPerPeer maxDistinctPeers maxTotalFrames maxTotalBytes : Nat)
    (perPeerPos : 0 < maxPerPeer) (now : UInt64) (disk : PendingDisk) :
    Except IoError (PendingStore PendingFrame × PendingDisk) := do
  let key ← loadOrCreateKey "pending-queue" disk.keyFile fresh
  let queues ← readPending env key now disk.pending
  return ({ key, queues, maxPerPeer, maxDistinctPeers, maxTotalFrames, maxTotalBytes
            dirty := false
            perPeerPos },
    { disk with keyFile := some key.1 })

end PendingStore

/-! ## What a file stands for -/

variable {env}

/-- The files of a store with this key whose queues, when it was last written,
were `queues`. -/
structure Saved (env : PendingEnv) (disk : PendingDisk) (key : Key)
    (queues : Dict PeerId (List PendingFrame)) : Prop where
  keyFile : disk.keyFile = some key.1
  pending : disk.pending = none ∧ queues = ∅ ∨
    ∃ nonce, disk.pending = some (persist env key nonce queues)

/-- A queue as it is loaded: its live frames, if there are any. -/
def liveQueue (now : UInt64) (queue : Option (List PendingFrame)) : Option (List PendingFrame) :=
  (queue.map fun q => q.filter fun f => !f.isExpired now).filter fun q => !q.isEmpty

/-- The live part of nothing, or of a queue all of which has expired, is nothing. -/
theorem liveQueue_eq_some {now : UInt64} {queue : Option (List PendingFrame)}
    {live : List PendingFrame} :
    liveQueue now queue = some live ↔
      ∃ q, queue = some q ∧ live = q.filter (fun f => !f.isExpired now) ∧ live ≠ [] := by
  rw [liveQueue, Option.filter_eq_some_iff, Option.map_eq_some_iff]
  constructor
  · rintro ⟨⟨q, hq, rfl⟩, hne⟩
    refine ⟨q, hq, rfl, ?_⟩
    rw [Bool.not_eq_true', List.isEmpty_eq_false_iff] at hne
    exact hne
  · rintro ⟨q, hq, rfl, hne⟩
    refine ⟨⟨q, hq, rfl⟩, ?_⟩
    rw [Bool.not_eq_true', List.isEmpty_eq_false_iff]
    exact hne

/-- A row as `drop_expired` reads it: a key that is not hex is skipped, and so
is a queue all of which has expired. -/
def queueRow (now : UInt64) (peerHex : Bytes) (queue : List PendingFrame) :
    Option (PeerId × List PendingFrame) :=
  (hexDecode peerHex).bind fun peerId =>
    (liveQueue now (some queue)).map fun live => (peerId, live)

/-- `persist` writes the rows of the queues that are not empty. -/
theorem pendingDoc_eq (queues : Dict PeerId (List PendingFrame)) :
    (pendingDoc queues).queues =
      (queues.retain fun _ q => !q.isEmpty).rows hexEncode fun _ q => q := by
  show queues.entries.foldl _ ∅ = (queues.entries.filter _).foldl _ ∅
  rw [List.foldl_filter]
  congr 1
  funext out e
  cases hempty : e.2.isEmpty with
  | true => simp only [hempty, Bool.not_true, Bool.false_eq_true, if_true, if_false]
  | false => simp only [hempty, Bool.not_false, Bool.false_eq_true, if_true, if_false]

/-- `drop_expired` reads a document row by row. -/
theorem dropExpired_eq (doc : PendingDoc) (now : UInt64) :
    dropExpired doc now = doc.queues.unrows (queueRow now) := by
  unfold dropExpired AList.unrows
  congr 1
  funext map e
  rw [queueRow, liveQueue, Option.map_some, Option.filter_some]
  cases hexDecode e.1 with
  | none => rfl
  | some peerId =>
    simp only [Option.bind_some]
    cases hempty : (e.2.filter fun f => !f.isExpired now).isEmpty with
    | true => rfl
    | false => rfl

/-- What is left of a written document after `drop_expired`. -/
theorem lookup_dropExpired {queues : Dict PeerId (List PendingFrame)} {doc : PendingDoc}
    (hdoc : doc.queues.entries.Perm (pendingDoc queues).queues.entries) (now : UInt64)
    (p : PeerId) : (dropExpired doc now).lookup p = liveQueue now (queues.lookup p) := by
  rw [pendingDoc_eq] at hdoc
  have hrow : ∀ p q, queueRow now (hexEncode p) q =
      (liveQueue now (some q)).map fun live => (p, live) := by
    intro p q
    rw [queueRow, hexDecode_hexEncode]
    rfl
  rw [dropExpired_eq, AList.lookup_unrows hexEncode_injective hdoc
    (fun _ q => liveQueue now (some q)) hrow, AList.lookup_retain]
  cases queues.lookup p with
  | none => rfl
  | some q =>
    -- an empty queue has no row, and nothing of it is live
    cases q with
    | nil => rfl
    | cons f rest => rfl

namespace PendingStore

/-- What was persisted is read back, less what has expired by then. -/
theorem readPending_persist (henv : env.Lawful) (key : Key) (nonce : Nonce)
    (queues : Dict PeerId (List PendingFrame)) (now : UInt64) :
    ∃ loaded, readPending env key now (some (persist env key nonce queues)) = .ok loaded ∧
      ∀ p, loaded.lookup p = liveQueue now (queues.lookup p) := by
  obtain ⟨doc, hdoc, hperm⟩ := henv.serde.round (pendingDoc queues)
  refine ⟨dropExpired doc now, ?_, lookup_dropExpired hperm now⟩
  unfold readPending persist
  simp only [decryptWithAad_encryptWithAad henv.cipher]
  show (match env.serde.fromSlice (env.serde.toVec (pendingDoc queues)) with
    | some doc => Except.ok (dropExpired doc now)
    | none => .error IoError.json) = _
  rw [hdoc]

/-- A store whose key file is there loads what its data file says. -/
theorem loadOrCreate_read {disk : PendingDisk} {key : Key} (hkey : disk.keyFile = some key.1)
    {now : UInt64} {loaded : Dict PeerId (List PendingFrame)}
    (hread : readPending env key now disk.pending = .ok loaded) (fresh : Key)
    (maxPerPeer maxDistinctPeers maxTotalFrames maxTotalBytes : Nat)
    (perPeerPos : 0 < maxPerPeer) :
    loadOrCreate env fresh maxPerPeer maxDistinctPeers maxTotalFrames maxTotalBytes perPeerPos
        now disk =
      .ok (⟨key, loaded, maxPerPeer, maxDistinctPeers, maxTotalFrames, maxTotalBytes, false,
        perPeerPos⟩, disk) := by
  obtain ⟨keyFile, pending⟩ := disk
  cases hkey
  unfold loadOrCreate
  rw [loadOrCreateKey_found]
  show (readPending env key now pending >>= _) = _
  rw [show readPending env key now pending = .ok loaded from hread]
  rfl

/-- Loading what was saved gives back its live part, and leaves the files as
they are. -/
theorem loadOrCreate_saved (henv : env.Lawful) {disk : PendingDisk} {key : Key}
    {queues : Dict PeerId (List PendingFrame)} (hsaved : Saved env disk key queues)
    (fresh : Key) (maxPerPeer maxDistinctPeers maxTotalFrames maxTotalBytes : Nat)
    (perPeerPos : 0 < maxPerPeer) (now : UInt64) :
    ∃ loaded : Dict PeerId (List PendingFrame),
      (∀ p, loaded.lookup p = liveQueue now (queues.lookup p)) ∧
      loadOrCreate env fresh maxPerPeer maxDistinctPeers maxTotalFrames maxTotalBytes perPeerPos
          now disk =
        .ok (⟨key, loaded, maxPerPeer, maxDistinctPeers, maxTotalFrames, maxTotalBytes, false,
          perPeerPos⟩, disk) := by
  obtain ⟨hkey, hpending⟩ := hsaved
  suffices hread : ∃ loaded, readPending env key now disk.pending = .ok loaded ∧
      ∀ p, loaded.lookup p = liveQueue now (queues.lookup p) by
    obtain ⟨loaded, hread, hlook⟩ := hread
    exact ⟨loaded, hlook, loadOrCreate_read hkey hread _ _ _ _ _ _⟩
  obtain ⟨hnone, rfl⟩ | ⟨nonce, hsome⟩ := hpending
  · rw [hnone]
    exact ⟨∅, rfl, fun _ => rfl⟩
  · rw [hsome]
    exact readPending_persist henv key nonce queues now

end PendingStore

end Pizzini.Relay
