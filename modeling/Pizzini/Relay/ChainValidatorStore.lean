import Mathlib.Logic.Function.Iterate
import Pizzini.Lib.MonotoneLog
import Pizzini.Relay.EncryptedFile

/-!
# `chain_validator_store.rs`: hash-chain validator state

The relay keeps, for each `(recipient, chain)`, how far the recipient's hash
chain has been spent. The map lives in memory; on disk it is a snapshot plus
an append-only journal of upserts (chain_validator_store.rs:41–57).

Every call is a pure function from the store (and the clock, and the random
bytes it draws) to the new store, the durable writes it issues in order, and
its result. The writes are data (`DiskOp`), so that a crash can be put between
any two of them, or in the middle of an append (`CrashIn`).

Parameters: the AEAD (`Cipher`), the JSON codec (`Serde`) and the hash step.
-/

namespace Pizzini.Relay

open Wire

/-! ## Constants (chain_validator_store.rs:34–92) -/

def CHAIN_ID_LEN : Nat := 16
def CHAIN_VALUE_LEN : Nat := 32
def MAX_CHAIN_LENGTH : UInt32 := 1048576
def MAX_VALIDATE_STEPS : UInt32 := 64
def MAX_CHAINS_PER_PEER : Nat := 32
def MAX_TOTAL_CHAINS : Nat := 100000
def JOURNAL_COMPACT_THRESHOLD : Nat := 4096

def AAD : Bytes := "pizzini.relay.chain_validators.v1".toUTF8.toList
def JOURNAL_AAD : Bytes := "pizzini.relay.chain_validators.journal.v1".toUTF8.toList

abbrev ChainId := FixedBytes CHAIN_ID_LEN
abbrev ChainValue := FixedBytes CHAIN_VALUE_LEN

/-- The map key `(peer_id, chain_id)`. -/
abbrev ChainKey := Bytes × ChainId

/-! ## Data (chain_validator_store.rs:94–173) -/

/-- `StoredEntry`: the serialised form of a chain's state. -/
structure StoredEntry where
  rootHex : Bytes
  length : UInt32
  lastIndex : UInt32
  lastValueHex : Bytes
  registeredUnix : UInt64
  lastUsedUnix : UInt64
  deriving DecidableEq, Repr

/-- `StoreDoc`: the snapshot document. -/
structure StoreDoc where
  entries : Dict Bytes StoredEntry

/-- `JournalRecord`: one appended mutation. -/
structure JournalRecord where
  key : Bytes
  entry : StoredEntry
  deriving DecidableEq, Repr

/-- `ValidateOutcome`. -/
inductive ValidateOutcome where
  | accepted
  | unknownChain
  | outOfRange
  | badChainValue
  deriving DecidableEq, Repr

/-- `RegisterOutcome`. -/
inductive RegisterOutcome where
  | registered
  | alreadyRegistered
  | conflict
  | badLength
  | rejectedCap
  deriving DecidableEq, Repr

/-- `ChainRegistration`. -/
structure ChainRegistration where
  peerId : FixedBytes 33
  chainId : ChainId
  root : ChainValue
  length : UInt32
  deriving DecidableEq

/-- The map key of a registration. -/
def ChainRegistration.key (reg : ChainRegistration) : ChainKey := (reg.peerId.1, reg.chainId)

/-- `ChainState`. -/
structure ChainState where
  root : ChainValue
  length : UInt32
  lastIndex : UInt32
  lastValue : ChainValue
  registeredUnix : UInt64
  lastUsedUnix : UInt64
  deriving DecidableEq

/-- `ChainValidatorStore`, less its file paths. -/
structure ChainValidatorStore where
  key : Key
  map : Dict ChainKey ChainState
  journalLen : Nat

/-! ## Parameters -/

/-- `serde_json` at the two document types. -/
structure Serde where
  recordToVec : JournalRecord → Bytes
  recordFromSlice : Bytes → Option JournalRecord
  docToVec : StoreDoc → Bytes
  docFromSlice : Bytes → Option StoreDoc

/-- What is used of `serde_json`: both documents round trip (a map's entries
in any order), and the text of a record is no longer than its strings, each
byte escaped to at most six characters, plus its field names and four numbers. -/
structure Serde.Lawful (s : Serde) : Prop where
  record_round : ∀ r, s.recordFromSlice (s.recordToVec r) = some r
  record_size : ∀ r, (s.recordToVec r).length ≤
    6 * (r.key.length + r.entry.rootHex.length + r.entry.lastValueHex.length) + 1024
  doc_round : ∀ d, ∃ d', s.docFromSlice (s.docToVec d) = some d' ∧
    d'.entries.entries.Perm d.entries.entries

/-- The store's surroundings: cipher, JSON codec and BLAKE3 on one chain value. -/
structure ChainEnv where
  cipher : Cipher
  serde : Serde
  blake3 : ChainValue → ChainValue

structure ChainEnv.Lawful (env : ChainEnv) : Prop where
  cipher : env.cipher.Lawful
  serde : env.serde.Lawful

/-! ## The disk -/

/-- The three files of the store; `none` is a missing file. -/
structure Disk where
  keyFile : Option Bytes
  snapshot : Option Bytes
  journal : Option Bytes
  deriving DecidableEq, Repr

/-- A state directory nothing has been written to. -/
def Disk.fresh : Disk := ⟨none, none, none⟩

/-- A durable write. All but `appendJournal` are all-or-nothing. -/
inductive DiskOp where
  /-- `write_atomic` of the key file -/
  | writeKey (key : Key)
  /-- `write_atomic` of the snapshot -/
  | writeSnapshot (bytes : Bytes)
  /-- `write_all` and `sync_all` at the end of the journal -/
  | appendJournal (framed : Bytes)
  /-- reopening the journal with `O_TRUNC` -/
  | truncateJournal
  /-- `ensure_journal_durable_exists` -/
  | createJournal
  deriving DecidableEq

/-- The bytes of the journal; a missing journal reads as empty. -/
def Disk.journalBytes (d : Disk) : Bytes := d.journal.getD []

/-- The effect of a completed write. -/
def DiskOp.run : DiskOp → Disk → Disk
  | .writeKey key, d => { d with keyFile := some key.1 }
  | .writeSnapshot bytes, d => { d with snapshot := some bytes }
  | .appendJournal framed, d => { d with journal := some (d.journalBytes ++ framed) }
  | .truncateJournal, d => { d with journal := some [] }
  | .createJournal, d => { d with journal := some d.journalBytes }

/-- All writes of a call. -/
def runOps (ops : List DiskOp) (d : Disk) : Disk :=
  ops.foldl (fun d op => op.run d) d

/-- `CrashIn ops d d'`: the process stops somewhere in `ops` and leaves `d'`.
Before any write, between two, or with a strict prefix of an appended record. -/
inductive CrashIn : List DiskOp → Disk → Disk → Prop where
  | stop {ops : List DiskOp} {d : Disk} : CrashIn ops d d
  | torn {framed : Bytes} {ops : List DiskOp} {d : Disk} {n : Nat} (h : n < framed.length) :
      CrashIn (.appendJournal framed :: ops) d
        { d with journal := some (d.journalBytes ++ framed.take n) }
  | next {op : DiskOp} {ops : List DiskOp} {d d' : Disk} (h : CrashIn ops (op.run d) d') :
      CrashIn (op :: ops) d d'

/-! ## Serialisation (chain_validator_store.rs:484–549) -/

/-- `composite_key`: `{peer_hex}:{chain_hex}`. -/
def compositeKey (peerId chainId : Bytes) : Bytes :=
  hexEncode peerId ++ 58 :: hexEncode chainId

/-- `stored_entry_of`. -/
def storedEntryOf (state : ChainState) : StoredEntry where
  rootHex := hexEncode state.root.1
  length := state.length
  lastIndex := state.lastIndex
  lastValueHex := hexEncode state.lastValue.1
  registeredUnix := state.registeredUnix
  lastUsedUnix := state.lastUsedUnix

/-- `str::split_once(':')`. -/
def splitOnce (s : Bytes) : Option (Bytes × Bytes) :=
  match s.dropWhile (· != 58) with
  | [] => none
  | _ :: after => some (s.takeWhile (· != 58), after)

/-- `decode_entry`: `none` on any malformed field. -/
def decodeEntry (composite : Bytes) (entry : StoredEntry) : Option (ChainKey × ChainState) := do
  let (peerHex, chainHex) ← splitOnce composite
  let peer ← hexDecode peerHex
  let chainId ← hexDecode chainHex
  if hc : chainId.length = CHAIN_ID_LEN then
    let root ← hexDecode entry.rootHex
    let lastVal ← hexDecode entry.lastValueHex
    if hv : root.length = CHAIN_VALUE_LEN ∧ lastVal.length = CHAIN_VALUE_LEN then
      return ((peer, ⟨chainId, hc⟩),
        { root := ⟨root, hv.1⟩
          length := entry.length
          lastIndex := entry.lastIndex
          lastValue := ⟨lastVal, hv.2⟩
          registeredUnix := entry.registeredUnix
          lastUsedUnix := entry.lastUsedUnix })
    else none
  else none

/-- `purge_stale` (chain_validator_store.rs:551–567): the snapshot's entries
used after the cutoff. -/
def purgeStale (doc : StoreDoc) (cutoff : UInt64) : Dict ChainKey ChainState :=
  doc.entries.entries.foldl
    (fun out e =>
      if e.2.lastUsedUnix ≤ cutoff then out
      else
        match decodeEntry e.1 e.2 with
        | some (k, state) => out.insert k state
        | none => out)
    ∅

/-- `apply_monotonic` (chain_validator_store.rs:612–625). -/
def applyMonotonic (map : Dict ChainKey ChainState) (k : ChainKey) (state : ChainState) :
    Dict ChainKey ChainState :=
  match map.lookup k with
  | some existing => if state.lastIndex < existing.lastIndex then map else map.insert k state
  | none => map.insert k state

variable (env : ChainEnv)

/-- Decrypt and parse one journal payload. -/
def readRecord (key : Key) (ct : Bytes) : Option JournalRecord :=
  match decryptWithAad env.cipher key ct JOURNAL_AAD with
  | .ok plaintext => env.serde.recordFromSlice plaintext
  | .error _ => none

/-- The records `replay_journal` reads off the file: its loop stops at a short
header, a zero length, a short payload, or a payload that does not decrypt or
parse (chain_validator_store.rs:586–600). -/
def journalRecords (key : Key) (bytes : Bytes) : List JournalRecord :=
  readFrames (readRecord env key) bytes

/-- One round of `replay_journal` after the record has been read: expired
records and undecodable ones are counted but not applied. -/
def applyRecord (cutoff : UInt64) (map : Dict ChainKey ChainState) (rec : JournalRecord) :
    Dict ChainKey ChainState :=
  if rec.entry.lastUsedUnix ≤ cutoff then map
  else
    match decodeEntry rec.key rec.entry with
    | some (k, state) => applyMonotonic map k state
    | none => map

/-- `replay_journal` (chain_validator_store.rs:575–609). -/
def replayJournal (key : Key) (cutoff : UInt64) (bytes : Bytes) (map : Dict ChainKey ChainState) :
    Dict ChainKey ChainState × Nat :=
  let records := journalRecords env key bytes
  (records.foldl (applyRecord cutoff) map, records.length)

/-! ## Persistence (chain_validator_store.rs:362–441) -/

/-- The random bytes a call may draw. -/
structure Rand where
  key : Key
  recordNonce : Nonce
  snapshotNonce : Nonce

/-- A call's new store, its durable writes in order, and its result. -/
structure Call (α : Type) where
  store : ChainValidatorStore
  ops : List DiskOp
  result : Except IoError α

variable (rand : Rand)

/-- The document `write_snapshot` serialises. -/
def snapshotDoc (map : Dict ChainKey ChainState) : StoreDoc where
  entries := map.entries.foldl
    (fun doc e => doc.insert (compositeKey e.1.1 e.1.2.1) (storedEntryOf e.2)) ∅

/-- `write_snapshot`. -/
def writeSnapshot (store : ChainValidatorStore) : DiskOp :=
  .writeSnapshot (encryptWithAad env.cipher store.key rand.snapshotNonce
    (env.serde.docToVec (snapshotDoc store.map)) AAD)

/-- `compact`: snapshot first, then truncate. -/
def compact (store : ChainValidatorStore) : ChainValidatorStore × List DiskOp :=
  ({ store with journalLen := 0 }, [writeSnapshot env rand store, .truncateJournal])

/-- The ciphertext of one journal record. -/
def journalCiphertext (key : Key) (peerId chainId : Bytes) (state : ChainState) : Bytes :=
  encryptWithAad env.cipher key rand.recordNonce
    (env.serde.recordToVec ⟨compositeKey peerId chainId, storedEntryOf state⟩) JOURNAL_AAD

/-- `append_journal`: one framed, synced record, then a compaction once the
journal has `JOURNAL_COMPACT_THRESHOLD` records. -/
def appendJournal (store : ChainValidatorStore) (peerId chainId : Bytes) (state : ChainState) :
    Call Unit :=
  let ct := journalCiphertext env rand store.key peerId chainId state
  if ct.length < 2 ^ 32 then
    let store' := { store with journalLen := store.journalLen + 1 }
    if JOURNAL_COMPACT_THRESHOLD ≤ store'.journalLen then
      let (compacted, ops) := compact env rand store'
      ⟨compacted, .appendJournal (frame ct) :: ops, .ok ()⟩
    else ⟨store', [.appendJournal (frame ct)], .ok ()⟩
  else ⟨store, [], .error .recordTooLarge⟩

/-! ## The public calls (chain_validator_store.rs:178–360) -/

/-- `register`. -/
def register (now : UInt64) (store : ChainValidatorStore) (reg : ChainRegistration) :
    Call RegisterOutcome :=
  if reg.length = 0 ∨ MAX_CHAIN_LENGTH < reg.length then ⟨store, [], .ok .badLength⟩
  else
    match store.map.lookup reg.key with
    | some existing =>
      if existing.root = reg.root ∧ existing.length = reg.length then
        ⟨store, [], .ok .alreadyRegistered⟩
      else ⟨store, [], .ok .conflict⟩
    | none =>
      if MAX_TOTAL_CHAINS ≤ store.map.len then ⟨store, [], .ok .rejectedCap⟩
      else if MAX_CHAINS_PER_PEER ≤
          ((store.map.keys.filter fun k => k.1 = reg.peerId.1).take MAX_CHAINS_PER_PEER).length then
        ⟨store, [], .ok .rejectedCap⟩
      else
        let state : ChainState :=
          { root := reg.root
            length := reg.length
            lastIndex := 0
            lastValue := reg.root
            registeredUnix := now
            lastUsedUnix := now }
        let appended := appendJournal env rand
          { store with map := store.map.insert reg.key state } reg.peerId.1 reg.chainId.1 state
        { appended with result := appended.result.map fun _ => .registered }

/-- The constant-time comparison of `validate`: the OR of the bytewise XORs. -/
def ctDiff (a b : Bytes) : UInt8 :=
  (a.zip b).foldl (fun diff xy => diff ||| (xy.1 ^^^ xy.2)) 0

/-- `validate`. -/
def validate (now : UInt64) (store : ChainValidatorStore) (peerId : Bytes) (chainId : ChainId)
    (index : UInt32) (value : ChainValue) : Call ValidateOutcome :=
  match store.map.lookup (peerId, chainId) with
  | none => ⟨store, [], .ok .unknownChain⟩
  | some state =>
    if index = 0 ∨ index ≤ state.lastIndex ∨ state.length < index then
      ⟨store, [], .ok .outOfRange⟩
    else
      let delta := index - state.lastIndex
      if MAX_VALIDATE_STEPS < delta then ⟨store, [], .ok .outOfRange⟩
      else
        let current := env.blake3^[delta.toNat] value
        if ctDiff current.1 state.lastValue.1 ≠ 0 then ⟨store, [], .ok .badChainValue⟩
        else
          let advanced :=
            { state with lastIndex := index, lastValue := value, lastUsedUnix := now }
          let appended := appendJournal env rand
            { store with map := store.map.insert (peerId, chainId) advanced }
            peerId chainId.1 advanced
          { appended with result := appended.result.map fun _ => .accepted }

/-- `gc_expired`. -/
def gcExpired (now maxAge : UInt64) (store : ChainValidatorStore) : Call Nat :=
  let cutoff := saturatingSub now maxAge
  let kept := store.map.retain fun _ state => decide (cutoff < state.lastUsedUnix)
  let removed := store.map.len - kept.len
  if 0 < removed then
    let (compacted, ops) := compact env rand { store with map := kept }
    ⟨compacted, ops, .ok removed⟩
  else ⟨{ store with map := kept }, [], .ok removed⟩

/-- The snapshot as `load_or_create` reads it: decrypted (with the legacy
fallback), parsed, and purged of entries idle since the cutoff. -/
def readSnapshot (key : Key) (cutoff : UInt64) :
    Option Bytes → Except IoError (Dict ChainKey ChainState)
  | none => .ok ∅
  | some bytes => do
    let plaintext ← match decryptWithAad env.cipher key bytes AAD with
      | .ok p => .ok p
      | .error _ => decrypt env.cipher key bytes
    match env.serde.docFromSlice plaintext with
    | some doc => .ok (purgeStale doc cutoff)
    | none => .error .json

/-- `load_or_create` (chain_validator_store.rs:178–222). The clock is read
twice, once for the snapshot and once for the journal. -/
def loadOrCreate (maxAge nowPurge nowReplay : UInt64) (disk : Disk) :
    Except IoError (ChainValidatorStore × List DiskOp) := do
  let key ← loadOrCreateKey "chain-validator" disk.keyFile rand.key
  let keyOps := if disk.keyFile.isNone then [DiskOp.writeKey key] else []
  let map ← readSnapshot env key (saturatingSub nowPurge maxAge) disk.snapshot
  let (map, replayed) :=
    replayJournal env key (saturatingSub nowReplay maxAge) disk.journalBytes map
  let store : ChainValidatorStore := { key, map, journalLen := replayed }
  let createOps := if disk.journal.isNone then [DiskOp.createJournal] else []
  if 0 < replayed then
    let (compacted, ops) := compact env rand store
    return (compacted, keyOps ++ createOps ++ ops)
  else return (store, keyOps ++ createOps)

end Pizzini.Relay
