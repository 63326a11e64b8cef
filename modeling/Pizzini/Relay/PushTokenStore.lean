import Pizzini.Relay.DocFile
import Pizzini.Relay.PendingStore

/-!
# `push_token_store.rs`: the APNs tokens

One token for each peer, with the second at which it was last registered. A
token that has not been registered again for `MAX_TOKEN_AGE` is stale: the
collector drops it, and so does a restart. The map changes in memory, and the
file is rewritten by `flush`.
-/

namespace Pizzini.Relay

open Wire

/-- The store's `AAD` (push_token_store.rs:63). -/
def PUSH_TOKENS_AAD : Bytes := "pizzini.relay.push-tokens.v1".toUTF8.toList

/-- `MAX_TOKEN_AGE` in seconds (push_token_store.rs:72). -/
def MAX_TOKEN_AGE : UInt64 := 2592000

/-- `StoredEntry` (push_token_store.rs:79–86). -/
structure StoredToken where
  tokenHex : Bytes
  lastRefreshedUnix : UInt64
  deriving DecidableEq, Repr

/-- A token and when it was last registered. -/
abbrev Token := Bytes × UInt64

/-- `PushTokenStore`, less its path. -/
structure PushTokenStore where
  key : Key
  map : Dict PeerId Token
  dirty : Bool

/-- `is_stale` (push_token_store.rs:305–308). -/
def isStale (lastRefreshedUnix cutoff : UInt64) : Bool := decide (lastRefreshedUnix ≤ cutoff)

/-- One row of `purge_stale`: a stale one is dropped, one that is not hex is skipped. -/
def tokenRow (cutoff : UInt64) (peerHex : Bytes) (entry : StoredToken) : Option (PeerId × Token) :=
  if isStale entry.lastRefreshedUnix cutoff then none
  else do
    let peerId ← hexDecode peerHex
    let token ← hexDecode entry.tokenHex
    return (peerId, token, entry.lastRefreshedUnix)

/-- `purge_stale` (push_token_store.rs:310–333). -/
def purgeStaleTokens (doc : Dict Bytes StoredToken) (maxAge now : UInt64) : Dict PeerId Token :=
  doc.unrows (tokenRow (saturatingSub now maxAge))

namespace PushTokenStore

/-- `insert`. -/
def insert (store : PushTokenStore) (peerId : PeerId) (token : Bytes) (now : UInt64) :
    PushTokenStore :=
  { store with
    map := store.map.insert peerId (token, now)
    dirty := true }

/-- `remove`: whether there was an entry. -/
def remove (store : PushTokenStore) (peerId : PeerId) : PushTokenStore × Bool :=
  if (store.map.lookup peerId).isSome then
    ({ store with
        map := store.map.erase peerId
        dirty := true }, true)
  else (store, false)

/-- `gc_expired`: the number of entries dropped. -/
def gcExpired (store : PushTokenStore) (maxAge now : UInt64) : PushTokenStore × Nat :=
  let cutoff := saturatingSub now maxAge
  let map := store.map.retain fun _ token => !isStale token.2 cutoff
  let removed := store.map.len - map.len
  ({ store with
      map
      dirty := store.dirty || decide (0 < removed) }, removed)

theorem gcExpired_map (store : PushTokenStore) (maxAge now : UInt64) :
    (store.gcExpired maxAge now).1.map =
      store.map.retain fun _ token => !isStale token.2 (saturatingSub now maxAge) := rfl

/-- The document `persist` writes. -/
def doc (map : Dict PeerId Token) : Dict Bytes StoredToken :=
  map.rows hexEncode fun _ token => ⟨hexEncode token.1, token.2⟩

variable (env : DocEnv StoredToken)

/-- `persist`: the bytes of the new file. -/
def persist (key : Key) (nonce : Nonce) (map : Dict PeerId Token) : Bytes :=
  sealDoc env PUSH_TOKENS_AAD key nonce (doc map)

/-- `flush`: whether it succeeded, the store and the files. -/
def flush (write : Write) (store : PushTokenStore) (files : StoreFiles) :
    Bool × PushTokenStore × StoreFiles :=
  if !store.dirty then (true, store, files)
  else match write with
    | none => (false, store, files)
    | some nonce =>
      (true, { store with dirty := false },
        { files with data := some (persist env store.key nonce store.map) })

/-- The file as `load_or_create` reads it. -/
def readTokens (key : Key) (now : UInt64) : Option Bytes → Except IoError (Dict PeerId Token)
  | none => .ok ∅
  | some bytes => do
    let doc ← openDoc env PUSH_TOKENS_AAD key bytes
    return purgeStaleTokens doc MAX_TOKEN_AGE now

/-- `load_or_create`; `fresh` is the key it draws if there is none. -/
def loadOrCreate (fresh : Key) (now : UInt64) (files : StoreFiles) :
    Except IoError (PushTokenStore × StoreFiles) := do
  let key ← loadOrCreateKey "push-token" files.keyFile fresh
  let map ← readTokens env key now files.data
  return (⟨key, map, false⟩, { files with keyFile := some key.1 })

/-! ## What a file stands for -/

/-- A token as it is loaded: unless it is stale. -/
def liveToken (now : UInt64) (token : Token) : Option Token :=
  if isStale token.2 (saturatingSub now MAX_TOKEN_AGE) then none else some token

/-- A token that is stale stays stale. -/
theorem liveToken_live {earlier now : UInt64} (h : earlier ≤ now) (token : Token) :
    (liveToken earlier token).bind (liveToken now) = liveToken now token := by
  unfold liveToken isStale
  by_cases hold : token.2 ≤ saturatingSub earlier MAX_TOKEN_AGE
  · have hnow : token.2 ≤ saturatingSub now MAX_TOKEN_AGE :=
      UInt64.le_trans hold (saturatingSub_mono h _)
    rw [if_pos (decide_eq_true hold), if_pos (decide_eq_true hnow)]
    rfl
  · rw [if_neg (by simpa using hold)]
    rfl

variable {env}

/-- What was persisted is read back, less what is stale by then. -/
theorem readTokens_persist (henv : env.Lawful) (key : Key) (nonce : Nonce)
    (map : Dict PeerId Token) (now : UInt64) :
    ∃ loaded, readTokens env key now (some (persist env key nonce map)) = .ok loaded ∧
      ∀ p, loaded.lookup p = (map.lookup p).bind (liveToken now) := by
  obtain ⟨doc', hdoc, hperm⟩ := openDoc_sealDoc henv PUSH_TOKENS_AAD key nonce (doc map)
  refine ⟨purgeStaleTokens doc' MAX_TOKEN_AGE now, ?_, fun p => ?_⟩
  · show (openDoc env PUSH_TOKENS_AAD key (sealDoc env PUSH_TOKENS_AAD key nonce (doc map)) >>= _) = _
    rw [hdoc]
    rfl
  · refine AList.lookup_unrows hexEncode_injective hperm (fun _ => liveToken now)
      (fun p token => ?_) p
    rw [tokenRow, liveToken]
    split
    · rfl
    · rw [hexDecode_hexEncode, hexDecode_hexEncode]
      rfl

/-- A store whose key file is there loads what its data file says. -/
theorem loadOrCreate_read {files : StoreFiles} {key : Key} (hkey : files.keyFile = some key.1)
    {now : UInt64} {loaded : Dict PeerId Token} (hread : readTokens env key now files.data = .ok loaded)
    (fresh : Key) : loadOrCreate env fresh now files = .ok (⟨key, loaded, false⟩, files) := by
  obtain ⟨keyFile, data⟩ := files
  cases hkey
  unfold loadOrCreate
  rw [loadOrCreateKey_found]
  show (readTokens env key now data >>= _) = _
  rw [show readTokens env key now data = .ok loaded from hread]
  rfl

end PushTokenStore

end Pizzini.Relay
