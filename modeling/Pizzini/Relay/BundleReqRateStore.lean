import Pizzini.Lib.Decimal
import Pizzini.Relay.DocFile
import Pizzini.Relay.PendingStore

/-!
# `bundle_req_rate_store.rs`: the counters of BUNDLE_REQUEST

The relay counts the bundle requests for each recipient in each hour. A row of
the file is keyed by recipient and hour in one text, `hex:hour`, which is split
at its last colon (`splitComposite_composite`). An hour's bucket is stale two
hours later; the subtraction saturates, and the comparison is strict, so that
the bucket of the current hour is never stale (`staleAt_of_le`).
-/

namespace Pizzini.Relay

open Wire

/-- The store's `AAD` (bundle_req_rate_store.rs:50). -/
def BUNDLE_REQ_RATE_AAD : Bytes := "pizzini.relay.bundle-req-rate.v1".toUTF8.toList

/-- `BUCKET_RETENTION_HOURS` (bundle_req_rate_store.rs:57). -/
def BUCKET_RETENTION_HOURS : UInt64 := 2

/-- A recipient and an hour. -/
abbrev Bucket := PeerId × UInt64

/-- `BundleReqRateStore`, less its path. -/
structure BundleReqRateStore where
  key : Key
  counts : Dict Bucket UInt32
  dirty : Bool

/-- `u32::saturating_add(1)`. -/
def saturatingSucc (n : UInt32) : UInt32 := if n = 4294967295 then n else n + 1

/-- `is_stale_bucket` (bundle_req_rate_store.rs:222–225). -/
def isStaleBucket (hour cutoff : UInt64) : Bool := decide (hour < cutoff)

/-- A bucket is stale for a collection or a load at `currentHour`. -/
def staleAt (currentHour hour : UInt64) : Bool :=
  isStaleBucket hour (saturatingSub currentHour BUCKET_RETENTION_HOURS)

/-! ## Composite keys (bundle_req_rate_store.rs:169, 235–241) -/

/-- `format!("{}:{}", hex_encode(recipient), hour)`. -/
def composite (bucket : Bucket) : Bytes := hexEncode bucket.1 ++ 58 :: decimal bucket.2.toNat

/-- `rsplit_once(':')`: what stands before and behind the last colon. -/
def rsplitColon (text : Bytes) : Option (Bytes × Bytes) :=
  match text.reverse.dropWhile (· ≠ 58) with
  | [] => none
  | _ :: before => some (before.reverse, (text.reverse.takeWhile (· ≠ 58)).reverse)

/-- The recipient and the hour of a composite key. -/
def splitComposite (text : Bytes) : Option (Bytes × UInt64) := do
  let (recipientHex, hourStr) ← rsplitColon text
  let hour ← parseU64 hourStr
  return (recipientHex, hour)

theorem rsplitColon_append {before behind : Bytes} (h : (58 : UInt8) ∉ behind) :
    rsplitColon (before ++ 58 :: behind) = some (before, behind) := by
  have hpass : ∀ b ∈ behind.reverse, decide (b ≠ 58) = true := by
    intro b hb
    rw [decide_eq_true_eq]
    rintro rfl
    exact h (List.mem_reverse.mp hb)
  have hrev : (before ++ 58 :: behind).reverse = behind.reverse ++ 58 :: before.reverse := by
    rw [List.reverse_append, List.reverse_cons, List.append_assoc]
    rfl
  have hdrop : (behind.reverse ++ 58 :: before.reverse).dropWhile (· ≠ 58) =
      58 :: before.reverse := by
    rw [List.dropWhile_append_of_pos hpass]
    rfl
  have htake : (behind.reverse ++ 58 :: before.reverse).takeWhile (· ≠ 58) = behind.reverse := by
    rw [List.takeWhile_append_of_pos hpass]
    exact List.append_nil _
  rw [rsplitColon, hrev, hdrop, htake]
  simp only [List.reverse_reverse]

theorem colon_notMem_decimal (n : Nat) : (58 : UInt8) ∉ decimal n := fun hmem =>
  absurd (decimal_digits n 58 hmem) (by decide)

/-- A composite key is taken apart as it was put together. -/
theorem splitComposite_composite (bucket : Bucket) :
    splitComposite (composite bucket) = some (hexEncode bucket.1, bucket.2) := by
  rw [splitComposite, composite, rsplitColon_append (colon_notMem_decimal _)]
  show (parseU64 (decimal bucket.2.toNat) >>= _) = _
  rw [parseU64_decimal]
  rfl

theorem composite_injective : Function.Injective composite := fun bucket bucket' h => by
  have hsplit := splitComposite_composite bucket
  rw [h, splitComposite_composite] at hsplit
  obtain ⟨hhex, hhour⟩ := Prod.mk.inj (Option.some.inj hsplit)
  exact Prod.ext (hexEncode_injective hhex.symm) hhour.symm

/-- One row of `purge_stale`: a malformed one is skipped, a stale one dropped. -/
def bucketRow (currentHour : UInt64) (text : Bytes) (count : UInt32) : Option (Bucket × UInt32) := do
  let (recipientHex, hour) ← splitComposite text
  if staleAt currentHour hour then none
  else
    let recipient ← hexDecode recipientHex
    return ((recipient, hour), count)

/-- `purge_stale` (bundle_req_rate_store.rs:231–249). -/
def purgeStaleBuckets (doc : Dict Bytes UInt32) (currentHour : UInt64) : Dict Bucket UInt32 :=
  doc.unrows (bucketRow currentHour)

namespace BundleReqRateStore

/-- `increment`: the count after it. It is never an error. -/
def increment (store : BundleReqRateStore) (recipient : PeerId) (hour : UInt64) :
    BundleReqRateStore × UInt32 :=
  let count := saturatingSucc ((store.counts.lookup (recipient, hour)).getD 0)
  ({ store with
      counts := store.counts.insert (recipient, hour) count
      dirty := true }, count)

/-- `gc_stale`: the number of buckets dropped. -/
def gcStale (store : BundleReqRateStore) (currentHour : UInt64) : BundleReqRateStore × Nat :=
  let counts := store.counts.retain fun bucket _ => !staleAt currentHour bucket.2
  let removed := store.counts.len - counts.len
  ({ store with
      counts
      dirty := store.dirty || decide (0 < removed) }, removed)

theorem gcStale_counts (store : BundleReqRateStore) (currentHour : UInt64) :
    (store.gcStale currentHour).1.counts =
      store.counts.retain fun bucket _ => !staleAt currentHour bucket.2 := rfl

/-- The document `persist` writes. -/
def doc (counts : Dict Bucket UInt32) : Dict Bytes UInt32 :=
  counts.rows composite fun _ count => count

variable (env : DocEnv UInt32)

/-- `persist`: the bytes of the new file. -/
def persist (key : Key) (nonce : Nonce) (counts : Dict Bucket UInt32) : Bytes :=
  sealDoc env BUNDLE_REQ_RATE_AAD key nonce (doc counts)

/-- `flush`: whether it succeeded, the store and the files. -/
def flush (write : Write) (store : BundleReqRateStore) (files : StoreFiles) :
    Bool × BundleReqRateStore × StoreFiles :=
  if !store.dirty then (true, store, files)
  else match write with
    | none => (false, store, files)
    | some nonce =>
      (true, { store with dirty := false },
        { files with data := some (persist env store.key nonce store.counts) })

/-- The file as `load_or_create` reads it. -/
def readCounts (key : Key) (currentHour : UInt64) :
    Option Bytes → Except IoError (Dict Bucket UInt32)
  | none => .ok ∅
  | some bytes => do
    let doc ← openDoc env BUNDLE_REQ_RATE_AAD key bytes
    return purgeStaleBuckets doc currentHour

/-- `load_or_create`; `fresh` is the key it draws if there is none. -/
def loadOrCreate (fresh : Key) (currentHour : UInt64) (files : StoreFiles) :
    Except IoError (BundleReqRateStore × StoreFiles) := do
  let key ← loadOrCreateKey "bundle-req-rate" files.keyFile fresh
  let counts ← readCounts env key currentHour files.data
  return (⟨key, counts, false⟩, { files with keyFile := some key.1 })

/-! ## What a file stands for -/

/-- A counter as it is loaded: unless its bucket is stale. -/
def liveCount (currentHour : UInt64) (bucket : Bucket) (count : UInt32) : Option UInt32 :=
  if staleAt currentHour bucket.2 then none else some count

/-- A bucket that is stale stays stale. -/
theorem staleAt_later {earlier later hour : UInt64} (h : earlier ≤ later)
    (hstale : staleAt earlier hour = true) : staleAt later hour = true := by
  rw [staleAt, isStaleBucket, decide_eq_true_eq] at hstale ⊢
  exact UInt64.lt_of_lt_of_le hstale (saturatingSub_mono h _)

/-- A bucket is not stale before its hour has passed, whatever the hour. -/
theorem staleAt_of_le {currentHour hour : UInt64} (h : currentHour ≤ hour) :
    staleAt currentHour hour = false := by
  rw [staleAt, isStaleBucket, decide_eq_false_iff_not]
  exact UInt64.not_lt.mpr (UInt64.le_trans (saturatingSub_le _ _) h)

theorem liveCount_live {earlier later : UInt64} (h : earlier ≤ later) (bucket : Bucket)
    (count : UInt32) :
    (liveCount earlier bucket count).bind (liveCount later bucket) =
      liveCount later bucket count := by
  unfold liveCount
  cases hold : staleAt earlier bucket.2 with
  | false => rfl
  | true =>
    rw [staleAt_later h hold]
    rfl

variable {env}

/-- What was persisted is read back, less what is stale by then. -/
theorem readCounts_persist (henv : env.Lawful) (key : Key) (nonce : Nonce)
    (counts : Dict Bucket UInt32) (currentHour : UInt64) :
    ∃ loaded, readCounts env key currentHour (some (persist env key nonce counts)) = .ok loaded ∧
      ∀ bucket, loaded.lookup bucket = (counts.lookup bucket).bind (liveCount currentHour bucket) := by
  obtain ⟨doc', hdoc, hperm⟩ := openDoc_sealDoc henv BUNDLE_REQ_RATE_AAD key nonce (doc counts)
  refine ⟨purgeStaleBuckets doc' currentHour, ?_, fun bucket => ?_⟩
  · show (openDoc env BUNDLE_REQ_RATE_AAD key
      (sealDoc env BUNDLE_REQ_RATE_AAD key nonce (doc counts)) >>= _) = _
    rw [hdoc]
    rfl
  · refine AList.lookup_unrows composite_injective hperm (liveCount currentHour)
      (fun bucket count => ?_) bucket
    rw [bucketRow, splitComposite_composite]
    show (if staleAt currentHour bucket.2 then none else _) = _
    rw [liveCount]
    split
    · rfl
    · rw [hexDecode_hexEncode]
      rfl

/-- A store whose key file is there loads what its data file says. -/
theorem loadOrCreate_read {files : StoreFiles} {key : Key} (hkey : files.keyFile = some key.1)
    {currentHour : UInt64} {loaded : Dict Bucket UInt32} (hread : readCounts env key currentHour files.data = .ok loaded)
    (fresh : Key) : loadOrCreate env fresh currentHour files = .ok (⟨key, loaded, false⟩, files) := by
  obtain ⟨keyFile, data⟩ := files
  cases hkey
  unfold loadOrCreate
  rw [loadOrCreateKey_found]
  show (readCounts env key currentHour data >>= _) = _
  rw [show readCounts env key currentHour data = .ok loaded from hread]
  rfl

end BundleReqRateStore

end Pizzini.Relay
