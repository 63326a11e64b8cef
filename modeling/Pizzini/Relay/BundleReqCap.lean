import Pizzini.Relay.DeferredPersistence
import Pizzini.Relay.FrameParsers

/-!
# The cap on bundle requests

A bundle request costs a proof of work, and the relay forwards at most eight of
them for one recipient in one hour. The count is kept by `BundleReqRateStore`,
so it has to survive the collector and a restart. Neither drops the bucket of
the current hour, and hours do not go back, so the count of a bucket is never
less than the number of frames that have passed the check for it
(`CapInv.counted`).
-/

namespace Pizzini.Relay

open Runs WriteBack Wire

/-- `BUNDLE_REQ_PER_RECIPIENT_PER_HOUR` (main.rs:756). -/
def BUNDLE_REQ_PER_RECIPIENT_PER_HOUR : UInt32 := 8

/-! ## The handler (main.rs:1785–1853) -/

/-- What becomes of a BUNDLE_REQUEST. -/
inductive BundleVerdict where
  | malformed (reason : String)
  | spoofedFromId
  | invalidHashcash
  | overCap
  | passed (toId : PeerId)
  deriving DecidableEq, Repr

/-- The arm of `read_loop` up to the cap check. `verifyHashcash` is the proof
of work of a recipient and a nonce, `hour` is `current_hour_bucket()`. -/
def bundleRequest (verifyHashcash : PeerId → UInt64 → Bool) (selfId : PeerId) (body : Bytes)
    (hour : UInt64) (store : BundleReqRateStore) : BundleVerdict × BundleReqRateStore :=
  match parseBundleRequest body with
  | .error reason => (.malformed reason, store)
  | .ok parsed =>
    if parsed.fromId ≠ selfId then (.spoofedFromId, store)
    else if !verifyHashcash parsed.toId parsed.hashcashNonce then (.invalidHashcash, store)
    else
      let (store, count) := store.increment parsed.toId hour
      if BUNDLE_REQ_PER_RECIPIENT_PER_HOUR < count then (.overCap, store)
      else (.passed parsed.toId, store)

/-! ## Runs -/

/-- The store and its files, the hour, and a ghost record of the frames that
have passed the check, by recipient and hour. -/
structure BundleRelay where
  rates : Deferred BundleReqRateStore StoreFiles
  hour : UInt64
  passed : List Bucket

inductive BundleEvent where
  | request (selfId : PeerId) (body : Bytes) (hour : UInt64)
  | gcStale (gcHour hour : UInt64)
  | flush (write : Write)
  | restart (hour : UInt64)

/-- A BUNDLE_REQUEST frame. -/
def BundleRelay.request (verifyHashcash : PeerId → UInt64 → Bool) (s : BundleRelay)
    (selfId : PeerId) (body : Bytes) (hour : UInt64) : BundleRelay :=
  let (verdict, store) := bundleRequest verifyHashcash selfId body hour s.rates.store
  { rates := { s.rates with store }
    hour
    passed := s.passed ++ match verdict with
      | .passed toId => [(toId, hour)]
      | _ => [] }

/-- `load_or_create` after a flush that wrote what there was to write. -/
def BundleRelay.reload (env : DocEnv UInt32) (s : BundleRelay) (nonce : Nonce) (fresh : Key)
    (hour : UInt64) : Except IoError (BundleReqRateStore × StoreFiles) :=
  BundleReqRateStore.loadOrCreate env fresh hour
    (s.rates.store.flush env (some nonce) s.rates.files).2.2

/-- One event. Hours do not go back, and the collector's is not later than the
current one. -/
inductive BundleStep (env : DocEnv UInt32) (verifyHashcash : PeerId → UInt64 → Bool) :
    BundleRelay → BundleEvent → BundleRelay → Prop where
  | request {s : BundleRelay} {selfId : PeerId} {body : Bytes} {hour : UInt64}
      (hhour : s.hour ≤ hour) :
      BundleStep env verifyHashcash s (.request selfId body hour)
        (s.request verifyHashcash selfId body hour)
  | gcStale {s : BundleRelay} {gcHour hour : UInt64} (hhour : s.hour ≤ hour)
      (hgc : gcHour ≤ hour) :
      BundleStep env verifyHashcash s (.gcStale gcHour hour)
        { s with
          rates := BundleReqRateStore.exec env s.rates (.gcStale gcHour)
          hour }
  | flush {s : BundleRelay} {write : Write} :
      BundleStep env verifyHashcash s (.flush write)
        { s with rates := BundleReqRateStore.exec env s.rates (.flush write) }
  | restart {s : BundleRelay} {nonce : Nonce} {fresh : Key} {hour : UInt64}
      {store : BundleReqRateStore} {files : StoreFiles} (hhour : s.hour ≤ hour)
      (hreload : s.reload env nonce fresh hour = .ok (store, files)) :
      BundleStep env verifyHashcash s (.restart hour)
        { s with
          rates := ⟨store, files⟩
          hour }

/-- The store has just been loaded, in this process no frame has passed yet. -/
structure BundleRelay.Started (env : DocEnv UInt32) (s : BundleRelay) : Prop where
  loaded : BundleReqRateStore.Loaded env s.hour s.rates
  passed : s.passed = []

/-! ## The invariant -/

namespace BundleReqRateStore

/-- The counter of a bucket; one without a row is zero. -/
def count (store : BundleReqRateStore) (bucket : Bucket) : UInt32 :=
  (store.counts.lookup bucket).getD 0

/-- A collection keeps every bucket that is not older than its hour. -/
theorem lookup_gcStale (store : BundleReqRateStore) {gcHour hour : UInt64} (h : gcHour ≤ hour)
    (recipient : PeerId) :
    (store.gcStale gcHour).1.counts.lookup (recipient, hour) =
      store.counts.lookup (recipient, hour) := by
  rw [gcStale_counts, AList.lookup_retain]
  cases store.counts.lookup (recipient, hour) with
  | none => rfl
  | some n =>
    rw [Option.filter_some, staleAt_of_le h]
    rfl

/-- So does a load. -/
theorem bind_liveCount {currentHour hour : UInt64} (h : currentHour ≤ hour) (recipient : PeerId)
    (n : Option UInt32) : n.bind (liveCount currentHour (recipient, hour)) = n := by
  cases n with
  | none => rfl
  | some n =>
    rw [Option.bind_some, liveCount, staleAt_of_le h]
    rfl

theorem count_increment (store : BundleReqRateStore) (recipient : PeerId) (hour : UInt64)
    (bucket : Bucket) :
    (store.increment recipient hour).1.count bucket =
      if bucket = (recipient, hour) then saturatingSucc (store.count (recipient, hour))
      else store.count bucket := by
  rw [increment, count, AList.lookup_insert_of_eq_or_ne]
  split
  · rfl
  · rfl

theorem increment_count (store : BundleReqRateStore) (recipient : PeerId) (hour : UInt64) :
    (store.increment recipient hour).2 = saturatingSucc (store.count (recipient, hour)) := rfl

end BundleReqRateStore

/-- An increment that is not past the cap is one more; none is less. -/
theorem toNat_saturatingSucc (n : UInt32) :
    n.toNat ≤ (saturatingSucc n).toNat ∧
      (saturatingSucc n ≤ BUNDLE_REQ_PER_RECIPIENT_PER_HOUR →
        (saturatingSucc n).toNat = n.toNat + 1) := by
  unfold saturatingSucc
  by_cases hmax : n = 4294967295
  · rw [if_pos hmax]
    refine ⟨Nat.le_refl _, fun hle => ?_⟩
    rw [hmax] at hle
    exact absurd hle (by decide)
  · have hlt : n.toNat + 1 < 2 ^ 32 := by
      have hn := n.toNat_lt
      have hne : n.toNat ≠ 4294967295 := fun h => hmax (UInt32.toNat_inj.mp h)
      omega
    have hsucc : (n + 1).toNat = n.toNat + 1 := by
      rw [UInt32.toNat_add]
      exact Nat.mod_eq_of_lt hlt
    rw [if_neg hmax, hsucc]
    exact ⟨Nat.le_succ _, fun _ => rfl⟩

/-- In every reachable state: the file of a clean store stands for its counters,
a counter that may still be read is not less than the number of frames that
have passed for its bucket, and that number is within the cap. -/
structure CapInv (env : DocEnv UInt32) (s : BundleRelay) : Prop where
  keyFile : s.rates.files.keyFile = some s.rates.store.key.1
  synced : Synced (BundleReqRateStore.Stands env s.hour) (BundleReqRateStore.view s.rates)
  counted : ∀ recipient hour, s.hour ≤ hour →
    s.passed.count (recipient, hour) ≤ (s.rates.store.count (recipient, hour)).toNat
  capped : ∀ bucket, s.passed.count bucket ≤ BUNDLE_REQ_PER_RECIPIENT_PER_HOUR.toNat

namespace CapInv

variable {env : DocEnv UInt32} {s : BundleRelay} {hour : UInt64}

theorem started (henv : env.Lawful) (h : s.Started env) : CapInv env s where
  keyFile := (h.loaded.start henv).1
  synced := (h.loaded.start henv).2
  counted := fun _ _ _ => by
    rw [h.passed]
    exact Nat.zero_le _
  capped := fun _ => by
    rw [h.passed]
    exact Nat.zero_le _

/-- Time passes. -/
theorem tick (h : CapInv env s) (hhour : s.hour ≤ hour) : CapInv env { s with hour } where
  keyFile := h.keyFile
  synced := fun hclean => (h.synced hclean).later fun _ => UInt64.le_trans hhour
  counted := fun recipient hour' hlater => h.counted recipient hour' (UInt64.le_trans hhour hlater)
  capped := h.capped

/-- A call on the store that does not lower a counter of this hour or a later one. -/
theorem exec (henv : env.Lawful) (h : CapInv env s) (call : BundleReqRateStore.Call)
    (hcount : ∀ recipient hour, s.hour ≤ hour → (s.rates.store.count (recipient, hour)).toNat ≤
      ((BundleReqRateStore.exec env s.rates call).store.count (recipient, hour)).toNat) :
    CapInv env { s with rates := BundleReqRateStore.exec env s.rates call } where
  keyFile := BundleReqRateStore.exec_keyFile call h.keyFile
  synced := h.synced.step (BundleReqRateStore.exec_lawful henv call)
  counted := fun recipient hour hhour =>
    Nat.le_trans (h.counted recipient hour hhour) (hcount recipient hour hhour)
  capped := h.capped

/-- A frame: what passes was counted, and the count was within the cap. -/
theorem request (henv : env.Lawful) (h : CapInv env s) (hhour : s.hour ≤ hour)
    (verifyHashcash : PeerId → UInt64 → Bool) (selfId : PeerId) (body : Bytes) :
    CapInv env (s.request verifyHashcash selfId body hour) := by
  have hnow := h.tick hhour
  unfold BundleRelay.request bundleRequest
  cases parseBundleRequest body with
  | error reason =>
    simp only [List.append_nil]
    exact hnow
  | ok parsed =>
    simp only
    split
    · simp only [List.append_nil]
      exact hnow
    split
    · simp only [List.append_nil]
      exact hnow
    have hincrement := hnow.exec henv (.increment parsed.toId hour) fun recipient hour' _ => by
      show _ ≤ ((s.rates.store.increment parsed.toId hour).1.count (recipient, hour')).toNat
      rw [BundleReqRateStore.count_increment]
      split
      next heq =>
        rw [heq]
        exact (toNat_saturatingSucc _).1
      next => exact Nat.le_refl _
    split
    · simp only [List.append_nil]
      exact hincrement
    next hcap =>
      rw [BundleReqRateStore.increment_count] at hcap
      have hone := (toNat_saturatingSucc _).2 (UInt32.not_lt.mp hcap)
      have hle := UInt32.le_iff_toNat_le.mp (UInt32.not_lt.mp hcap)
      -- the bucket had room for one more
      have hroom := hnow.counted parsed.toId hour (UInt64.le_refl hour)
      have hbucket : ∀ bucket : Bucket, (s.passed ++ [(parsed.toId, hour)]).count bucket =
          s.passed.count bucket + if bucket = (parsed.toId, hour) then 1 else 0 := by
        intro bucket
        rw [List.count_append, List.count_singleton]
        congr 1
        exact if_congr (by rw [beq_iff_eq, eq_comm]) rfl rfl
      refine ⟨hincrement.keyFile, hincrement.synced, fun recipient hour' hlater => ?_,
        fun bucket => ?_⟩
      · show (s.passed ++ [(parsed.toId, hour)]).count (recipient, hour') ≤
          ((s.rates.store.increment parsed.toId hour).1.count (recipient, hour')).toNat
        rw [hbucket, BundleReqRateStore.count_increment]
        split
        next heq =>
          rw [heq, hone]
          exact Nat.add_le_add_right hroom 1
        next => exact hnow.counted recipient hour' hlater
      · show (s.passed ++ [(parsed.toId, hour)]).count bucket ≤ _
        rw [hbucket]
        split
        next heq =>
          rw [heq]
          exact Nat.le_trans (Nat.add_le_add_right hroom 1) (hone ▸ hle)
        next => exact h.capped bucket

/-- A restart after a flush loads every counter of this hour or a later one. -/
theorem reload (henv : env.Lawful) (h : CapInv env s) (hhour : s.hour ≤ hour) (nonce : Nonce)
    (fresh : Key) :
    ∃ store files, s.reload env nonce fresh hour = .ok (store, files) ∧
      (∀ recipient hour', hour ≤ hour' →
        store.counts.lookup (recipient, hour') = s.rates.store.counts.lookup (recipient, hour')) ∧
      CapInv env
        { s with
          rates := ⟨store, files⟩
          hour } := by
  have hflush : (s.rates.store.flush env (some nonce) s.rates.files).1 = true := by
    unfold BundleReqRateStore.flush
    split
    · rfl
    · rfl
  obtain ⟨hclean, _, hcounts⟩ := BundleReqRateStore.exec_flush (some nonce) hflush
  have hflushed := h.exec henv (.flush (some nonce)) fun recipient hour' _ => by
    rw [BundleReqRateStore.count, BundleReqRateStore.count, hcounts]
  have hstands := hflushed.synced hclean
  obtain ⟨loaded, hread, hlook⟩ := hstands hour hhour
  have hcurrent : ∀ recipient hour', hour ≤ hour' →
      loaded.lookup (recipient, hour') = s.rates.store.counts.lookup (recipient, hour') := by
    intro recipient hour' hlater
    rw [hlook, BundleReqRateStore.bind_liveCount hlater, ← hcounts]
    rfl
  refine ⟨_, _, BundleReqRateStore.loadOrCreate_read hflushed.keyFile hread fresh, hcurrent, ?_⟩
  exact
    { keyFile := hflushed.keyFile
      synced := fun _ => hstands.of_read
        (fun _ _ _ _ h => BundleReqRateStore.liveCount_live h _ _)
        (fun _ => UInt64.le_trans hhour) hhour hread
      counted := fun recipient hour' hlater => by
        show _ ≤ ((loaded.lookup (recipient, hour')).getD 0).toNat
        rw [hcurrent recipient hour' hlater]
        exact h.counted recipient hour' (UInt64.le_trans hhour hlater)
      capped := h.capped }

theorem step (henv : env.Lawful) {verifyHashcash : PeerId → UInt64 → Bool} {s s' : BundleRelay}
    {e : BundleEvent} (h : CapInv env s) (hstep : BundleStep env verifyHashcash s e s') :
    CapInv env s' := by
  cases hstep with
  | request hhour => exact h.request henv hhour verifyHashcash _ _
  | @gcStale gcHour hour hhour hgc =>
    refine (h.tick hhour).exec henv (.gcStale gcHour) fun recipient hour' hlater => ?_
    show _ ≤ ((s.rates.store.gcStale gcHour).1.count (recipient, hour')).toNat
    rw [BundleReqRateStore.count, BundleReqRateStore.count,
      BundleReqRateStore.lookup_gcStale _ (UInt64.le_trans hgc hlater)]
  | @flush write =>
    refine h.exec henv (.flush write) fun recipient hour' _ => ?_
    have hcounts : (BundleReqRateStore.exec env s.rates (.flush write)).store.counts =
        s.rates.store.counts := by
      simp only [BundleReqRateStore.exec, BundleReqRateStore.flush]
      cases s.rates.store.dirty with
      | false => rfl
      | true =>
        cases write with
        | none => rfl
        | some nonce => rfl
    rw [BundleReqRateStore.count, BundleReqRateStore.count, hcounts]
  | @restart nonce fresh hour store files hhour hreload =>
    obtain ⟨store', files', hok, _, hinv⟩ := h.reload henv hhour nonce fresh
    cases hreload.symm.trans hok
    exact hinv

end CapInv

/-- In every run, at most eight frames for one recipient and hour pass the cap
check; no collection at an hour up to a bucket's, and no restart at it, loses
the bucket's counter. -/
theorem bundle_requests_capped {env : DocEnv UInt32} (henv : env.Lawful)
    {verifyHashcash : PeerId → UInt64 → Bool} {s₀ s : BundleRelay} (hstart : s₀.Started env)
    (hrun : Reach (BundleStep env verifyHashcash) (fun _ _ => True) s₀ s) :
    (∀ bucket, s.passed.count bucket ≤ BUNDLE_REQ_PER_RECIPIENT_PER_HOUR.toNat) ∧
      (∀ recipient gcHour hour, gcHour ≤ hour →
        (s.rates.store.gcStale gcHour).1.counts.lookup (recipient, hour) =
          s.rates.store.counts.lookup (recipient, hour)) ∧
      ∀ nonce fresh hour, s.hour ≤ hour →
        ∃ store files, s.reload env nonce fresh hour = .ok (store, files) ∧
          ∀ recipient, store.counts.lookup (recipient, hour) =
            s.rates.store.counts.lookup (recipient, hour) := by
  have hinv : CapInv env s :=
    hrun.invariant (CapInv env) (fun h _ hstep => h.step henv hstep) (CapInv.started henv hstart)
  refine ⟨hinv.capped, fun recipient gcHour hour hgc => ?_, fun nonce fresh hour hhour => ?_⟩
  · exact s.rates.store.lookup_gcStale hgc recipient
  · obtain ⟨store, files, hok, hlook, _⟩ := hinv.reload henv hhour nonce fresh
    exact ⟨store, files, hok, fun recipient => hlook recipient hour (UInt64.le_refl hour)⟩

/-! ## A run -/

/-- A request from peer `[1]` to peer `[2]` with nonce 0. -/
def sampleBundleBody : Bytes := [0, 1, 2, 0, 1, 1, 0, 0, 0, 0, 0, 0, 0, 0]

def freshBundleRelay : BundleRelay := ⟨freshCounts, 0, []⟩

/-- Nine such requests in the last hour there is. -/
def busyBundleRelay : BundleRelay :=
  (List.replicate 9 sampleBundleBody).foldl
    (fun s body => s.request (fun _ _ => true) [1] body 18446744073709551615) freshBundleRelay

theorem bundle_requests_capped_sample :
    busyBundleRelay.passed.count ([2], 18446744073709551615) = 8 ∧
      busyBundleRelay.passed.count ([2], 18446744073709551615) ≤
        BUNDLE_REQ_PER_RECIPIENT_PER_HOUR.toNat := by
  have hstart : freshBundleRelay.Started plainCountEnv :=
    ⟨⟨zeroKey, StoreFiles.fresh, .inl rfl, rfl⟩, rfl⟩
  have hreach : ∀ n, Reach (BundleStep plainCountEnv fun _ _ => true) (fun _ _ => True)
      freshBundleRelay ((List.replicate n sampleBundleBody).foldl
        (fun s body => s.request (fun _ _ => true) [1] body 18446744073709551615)
        freshBundleRelay) := by
    intro n
    induction n with
    | zero => exact Reach.refl
    | succ n ih =>
      rw [List.replicate_succ', List.foldl_append, List.foldl_cons, List.foldl_nil]
      refine ih.snoc (.request ?_) trivial
      exact UInt64.le_iff_toNat_le.mpr (Nat.le_of_lt_succ (UInt64.toNat_lt _))
  exact ⟨by decide +kernel,
    (bundle_requests_capped plainCountEnv_lawful hstart (hreach 9)).1 _⟩

end Pizzini.Relay
