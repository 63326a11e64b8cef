import Pizzini.Lib.WriteBack
import Pizzini.Relay.BundleReqRateStore
import Pizzini.Relay.PendingRuns
import Pizzini.Relay.PlainDocs
import Pizzini.Relay.PlainPending
import Pizzini.Relay.PushTokenStore

/-!
# Deferred persistence

`PendingStore`, `PushTokenStore` and `BundleReqRateStore` change in memory and
mark themselves dirty; a periodic task flushes them, and a flush may fail. For
each of them this module takes every sequence of calls after a load and shows
that the file of a clean store, loaded again, gives its contents less what has
expired by then (`deferred_persistence`).

The three arguments are the same. A call leaves the contents alone, or sets the
flag, or has written the file (`Lawful`), so `WriteBack.synced_of_reach`
applies; `StandsFor` says what is expected of the file.
-/

namespace Pizzini.Relay

open Runs WriteBack Wire

/-- A store and its files. -/
structure Deferred (Store Files : Type) where
  store : Store
  files : Files

/-! ## The offline queue -/

namespace PendingStore

variable (env : PendingEnv)

/-- A call on the store, with the clock where it reads one. -/
inductive Call where
  | enqueue (peerId : PeerId) (frame : PendingFrame)
  | enqueueSeed (peerId : PeerId) (frame : PendingFrame)
  | drain (peerId : PeerId) (now : UInt64)
  | gcExpired (now : UInt64)
  | flush (write : Write)

/-- `flush` (pending_store.rs:442–449), with a write that may fail: whether it
succeeded, the store and the files. -/
def tryFlush (write : Write) (store : PendingStore PendingFrame) (disk : PendingDisk) :
    Bool × PendingStore PendingFrame × PendingDisk :=
  if !store.dirty then (true, store, disk)
  else match write with
    | none => (false, store, disk)
    | some nonce => (true, store.flush env nonce disk)

def exec (s : Deferred (PendingStore PendingFrame) PendingDisk) :
    Call → Deferred (PendingStore PendingFrame) PendingDisk
  | .enqueue peerId frame => { s with store := (s.store.enqueue peerId frame).1 }
  | .enqueueSeed peerId frame => { s with store := (s.store.enqueueSeed peerId frame).1 }
  | .drain peerId now => { s with store := (s.store.drain now peerId).1 }
  | .gcExpired now => { s with store := (s.store.gcExpired now).1 }
  | .flush write =>
    { s with
      store := (s.store.tryFlush env write s.files).2.1
      files := (s.store.tryFlush env write s.files).2.2 }

/-- A state directory that this store may have left, in an earlier process. -/
def WrittenFiles (disk : PendingDisk) : Prop :=
  disk = PendingDisk.fresh ∨ ∃ key queues, Saved env disk key queues

/-- The store as `load_or_create` returned it at `loadedAt`. -/
def Loaded (loadedAt : UInt64) (s : Deferred (PendingStore PendingFrame) PendingDisk) : Prop :=
  ∃ fresh disk maxPerPeer maxDistinctPeers maxTotalFrames maxTotalBytes perPeerPos,
    WrittenFiles env disk ∧
      loadOrCreate env fresh maxPerPeer maxDistinctPeers maxTotalFrames maxTotalBytes perPeerPos
        loadedAt disk = .ok (s.store, s.files)

/-- Loading the files at `now` gives a clean store with the live part of `queues`. -/
def Restores (key : Key) (queues : Dict PeerId (List PendingFrame)) (disk : PendingDisk)
    (now : UInt64) : Prop :=
  ∀ fresh maxPerPeer maxDistinctPeers maxTotalFrames maxTotalBytes perPeerPos,
    ∃ loaded : Dict PeerId (List PendingFrame),
      (∀ p, loaded.lookup p = liveQueue now (queues.lookup p)) ∧
      loadOrCreate env fresh maxPerPeer maxDistinctPeers maxTotalFrames maxTotalBytes perPeerPos
        now disk =
        .ok (⟨key, loaded, maxPerPeer, maxDistinctPeers, maxTotalFrames, maxTotalBytes, false,
          perPeerPos⟩, disk)

variable {env} {loadedAt : UInt64} {s s' : Deferred (PendingStore PendingFrame) PendingDisk}

/-- Expired frames stay expired. -/
theorem liveQueue_live {earlier later : UInt64} (h : earlier ≤ later) (q : List PendingFrame) :
    (liveQueue earlier (some q)).bind (fun q => liveQueue later (some q)) =
      liveQueue later (some q) := by
  have hlater : ∀ q : List PendingFrame,
      ((q.filter fun f => !f.isExpired earlier).filter fun f => !f.isExpired later) =
        q.filter fun f => !f.isExpired later := by
    intro q
    rw [List.filter_filter]
    refine List.filter_congr fun f _ => ?_
    cases hlive : f.isExpired later with
    | true => rfl
    | false =>
      have hearlier : f.isExpired earlier = false := by
        rw [PendingFrame.isExpired, decide_eq_false_iff_not] at hlive ⊢
        exact fun hold => hlive (UInt64.le_trans hold h)
      rw [hearlier]
      rfl
  have hdead : ∀ q : List PendingFrame, (q.filter fun f => !f.isExpired earlier) = [] →
      (q.filter fun f => !f.isExpired later) = [] := by
    intro q hnil
    rw [← hlater, hnil]
    rfl
  rw [liveQueue, Option.map_some, Option.filter_some, liveQueue, Option.map_some,
    Option.filter_some]
  by_cases hempty : (q.filter fun f => !f.isExpired earlier) = []
  · rw [hempty, hdead q hempty]
    rfl
  · rw [if_pos (by simpa using hempty), Option.bind_some, liveQueue, Option.map_some,
      Option.filter_some, hlater]

theorem liveQueue_eq_bind (now : UInt64) (queue : Option (List PendingFrame)) :
    liveQueue now queue = queue.bind fun q => liveQueue now (some q) := by
  cases queue with
  | none => rfl
  | some q => rfl

/-- The data file stands for the queues from `loadedAt` on. -/
abbrev Stands (env : PendingEnv) (loadedAt : UInt64) (data : Option Bytes)
    (mem : Key × Dict PeerId (List PendingFrame)) : Prop :=
  StandsFor (readPending env mem.1) (fun now _ q => liveQueue now (some q)) loadedAt data mem.2

/-- What a call may change. -/
def view (s : Deferred (PendingStore PendingFrame) PendingDisk) :
    Cached (Key × Dict PeerId (List PendingFrame)) (Option Bytes) :=
  ⟨(s.store.key, s.store.queues), s.store.dirty, s.files.pending⟩

/-- The collector drops expired frames, and without marking the store only
queues that are empty. -/
theorem gcExpired_lawful (now : UInt64) :
    Lawful (Stands env loadedAt) (view s)
      (view { s with store := (s.store.gcExpired now).1 }) := by
  cases hdirty : (s.store.gcExpired now).1.dirty with
  | true =>
    show Lawful _ _ ⟨_, (s.store.gcExpired now).1.dirty, _⟩
    rw [hdirty]
    exact .marked
  | false =>
    obtain ⟨hclean, hdropped⟩ : s.store.dirty = false ∧ (s.store.gcExpired now).2 = 0 := by
      have hflag : (s.store.dirty || decide (0 < (s.store.gcExpired now).2)) = false := hdirty
      rw [Bool.or_eq_false_iff, decide_eq_false_iff_not] at hflag
      exact ⟨hflag.1, Nat.eq_zero_of_not_pos hflag.2⟩
    -- no frame has been dropped, so every queue is as it was
    have hqueues : ∀ e ∈ s.store.queues.entries,
        (e.2.filter fun f => !Queued.isExpired now f) = e.2 := by
      intro e he
      have hall := List.sum_eq_zero_iff_forall_eq_nat.mp hdropped _
        (List.mem_map.mpr ⟨e, he, rfl⟩)
      have hle := List.length_filter_le (fun f => !Queued.isExpired now f) e.2
      exact List.filter_sublist.eq_of_length (by omega)
    have hlook : ∀ p, (s.store.gcExpired now).1.queues.lookup p =
        (s.store.queues.lookup p).filter fun q => !q.isEmpty := by
      intro p
      show (AList.retain _ (AList.mapVals _ s.store.queues)).lookup p = _
      rw [AList.lookup_retain, AList.lookup_mapVals]
      cases hp : s.store.queues.lookup p with
      | none => rfl
      | some q =>
        have hq := hqueues ⟨p, q⟩ (AList.lookup_eq_some_iff.mp hp)
        simp only at hq
        rw [Option.map_some, hq]
    show Lawful _ _ ⟨_, (s.store.gcExpired now).1.dirty, _⟩
    rw [hdirty, ← hclean]
    refine .same fun data hstands => hstands.congr fun p later _ => ?_
    show ((s.store.gcExpired now).1.queues.lookup p).bind _ = (s.store.queues.lookup p).bind _
    rw [hlook]
    cases s.store.queues.lookup p with
    | none => rfl
    | some q =>
      cases q with
      | nil => rfl
      | cons f rest => rfl

theorem enqueueInner_lawful (peerId : PeerId) (frame : PendingFrame) (cap : Nat) :
    Lawful (Stands env loadedAt) (view s)
      (view { s with store := (s.store.enqueueInner peerId frame cap).1 }) := by
  rcases enqueueInner_eq s.store peerId frame cap with heq | heq
  · rw [heq]
    exact .refl _ _
  · rw [heq]
    exact .marked

/-- Every call is lawful. -/
theorem exec_lawful (henv : env.Lawful) (call : Call) :
    Lawful (Stands env loadedAt) (view s) (view (exec env s call)) := by
  cases call with
  | enqueue peerId frame => exact enqueueInner_lawful peerId frame _
  | enqueueSeed peerId frame => exact enqueueInner_lawful peerId frame _
  | drain peerId now =>
    show Lawful _ _ (view { s with store := (s.store.drain now peerId).1 })
    unfold drain
    cases s.store.queues.lookup peerId with
    | none => exact .refl _ _
    | some q => exact .marked
  | gcExpired now => exact gcExpired_lawful now
  | flush write =>
    simp only [exec, tryFlush]
    cases hdirty : s.store.dirty with
    | false => exact .refl _ _
    | true =>
      cases write with
      | none => exact .refl _ _
      | some nonce =>
        simp only [Bool.not_true, Bool.false_eq_true, if_false, flush_eq, drop, hdirty, if_true]
        refine .written fun now _ => ?_
        obtain ⟨loaded, hread, hlook⟩ := readPending_persist henv s.store.key nonce s.store.queues now
        exact ⟨loaded, hread, fun p => (hlook p).trans (liveQueue_eq_bind now _)⟩

/-- No call touches the key or its file. -/
theorem exec_keyFile (call : Call) (h : s.files.keyFile = some s.store.key.1) :
    (exec env s call).files.keyFile = some (exec env s call).store.key.1 := by
  cases call with
  | enqueue peerId frame =>
    show s.files.keyFile = some (s.store.enqueueInner peerId frame _).1.key.1
    rw [(enqueueInner_fields _ _ _ _).1]
    exact h
  | enqueueSeed peerId frame =>
    show s.files.keyFile = some (s.store.enqueueInner peerId frame _).1.key.1
    rw [(enqueueInner_fields _ _ _ _).1]
    exact h
  | drain peerId now =>
    show s.files.keyFile = some (s.store.drain now peerId).1.key.1
    rw [(s.store.drain_fields now peerId).1]
    exact h
  | gcExpired now => exact h
  | flush write =>
    simp only [exec, tryFlush]
    cases hdirty : s.store.dirty with
    | false => exact h
    | true =>
      cases write with
      | none => exact h
      | some nonce =>
        simp only [Bool.not_true, Bool.false_eq_true, if_false, flush_eq, drop, hdirty, if_true]
        exact h

/-- A store that has just been loaded is synced. -/
theorem Loaded.start (henv : env.Lawful) (h : Loaded env loadedAt s) :
    s.files.keyFile = some s.store.key.1 ∧ Synced (Stands env loadedAt) (view s) := by
  obtain ⟨fresh, disk, maxPerPeer, maxDistinctPeers, maxTotalFrames, maxTotalBytes, perPeerPos,
    rfl | ⟨key, queues, hsaved⟩, hload⟩ := h
  · obtain ⟨store, files⟩ := s
    cases hload
    exact ⟨rfl, fun _ now _ => ⟨∅, rfl, fun _ => rfl⟩⟩
  · obtain ⟨loaded, hlook, heq⟩ := loadOrCreate_saved henv hsaved fresh maxPerPeer
      maxDistinctPeers maxTotalFrames maxTotalBytes perPeerPos loadedAt
    have hfile : ∀ now, ∃ loaded, readPending env key now disk.pending = .ok loaded ∧
        ∀ p, loaded.lookup p = (queues.lookup p).bind fun q => liveQueue now (some q) := by
      intro now
      rcases hsaved.pending with ⟨hnone, rfl⟩ | ⟨nonce, hsome⟩
      · rw [hnone]
        exact ⟨∅, rfl, fun _ => rfl⟩
      · rw [hsome]
        obtain ⟨loaded, hread, hlook⟩ := readPending_persist henv key nonce queues now
        exact ⟨loaded, hread, fun p => (hlook p).trans (liveQueue_eq_bind now _)⟩
    rw [heq] at hload
    obtain ⟨store, files⟩ := s
    cases hload
    refine ⟨hsaved.keyFile, fun _ => ?_⟩
    obtain ⟨first, hfirst, hlook'⟩ := hfile loadedAt
    have hstands := StandsFor.of_read (fun _ _ _ q hle => liveQueue_live hle q)
      (fun now _ => hfile now) (fun _ h => h) (UInt64.le_refl loadedAt) hfirst
    refine hstands.congr fun p now _ => ?_
    show (loaded.lookup p).bind _ = (first.lookup p).bind _
    rw [hlook, hlook', liveQueue_eq_bind]

/-- The queues of a clean store are on disk, less what has expired. -/
theorem restores_of_clean (henv : env.Lawful) (hloaded : Loaded env loadedAt s)
    (hrun : Reach (fun s call s' => s' = exec env s call) (fun _ _ => True) s s')
    (hclean : s'.store.dirty = false) {now : UInt64} (hnow : loadedAt ≤ now) :
    Restores env s'.store.key s'.store.queues s'.files now := by
  obtain ⟨hkey, hsynced⟩ := hloaded.start henv
  have hkey' := hrun.invariant (fun s => s.files.keyFile = some s.store.key.1)
    (fun h _ hstep => by rw [hstep]; exact exec_keyFile _ h) hkey
  have hsynced' := synced_of_reach view
    (fun hstep => by rw [hstep]; exact exec_lawful henv _) hrun hsynced
  obtain ⟨loaded, hread, hlook⟩ := hsynced' hclean now hnow
  intro fresh maxPerPeer maxDistinctPeers maxTotalFrames maxTotalBytes perPeerPos
  exact ⟨loaded, fun p => (hlook p).trans (liveQueue_eq_bind now _).symm,
    loadOrCreate_read hkey' hread _ _ _ _ _ _⟩

/-- A flush that succeeds leaves a clean store with the same queues. -/
theorem exec_flush (write : Write) (h : (s.store.tryFlush env write s.files).1 = true) :
    (exec env s (.flush write)).store.dirty = false ∧
      (exec env s (.flush write)).store.key = s.store.key ∧
      (exec env s (.flush write)).store.queues = s.store.queues := by
  simp only [exec, tryFlush] at h ⊢
  cases hdirty : s.store.dirty with
  | false => exact ⟨hdirty, rfl, rfl⟩
  | true =>
    rw [hdirty] at h
    cases write with
    | none => cases h
    | some nonce =>
      simp only [Bool.not_true, Bool.false_eq_true, if_false, flush_eq]
      exact ⟨trivial, trivial, trivial⟩

end PendingStore

/-! ## Push tokens -/

namespace PushTokenStore

variable (env : DocEnv StoredToken)

/-- A call on the store, with the clock where it reads one. -/
inductive Call where
  | insert (peerId : PeerId) (token : Bytes) (now : UInt64)
  | remove (peerId : PeerId)
  | gcExpired (maxAge now : UInt64)
  | flush (write : Write)

def exec (s : Deferred PushTokenStore StoreFiles) : Call → Deferred PushTokenStore StoreFiles
  | .insert peerId token now => { s with store := s.store.insert peerId token now }
  | .remove peerId => { s with store := (s.store.remove peerId).1 }
  | .gcExpired maxAge now => { s with store := (s.store.gcExpired maxAge now).1 }
  | .flush write =>
    { s with
      store := (s.store.flush env write s.files).2.1
      files := (s.store.flush env write s.files).2.2 }

/-- A state directory that this store may have left, in an earlier process. -/
def WrittenFiles (files : StoreFiles) : Prop :=
  files = StoreFiles.fresh ∨
    ∃ key : Key, files.keyFile = some key.1 ∧
      (files.data = none ∨ ∃ nonce map, files.data = some (persist env key nonce map))

/-- The store as `load_or_create` returned it at `loadedAt`. -/
def Loaded (loadedAt : UInt64) (s : Deferred PushTokenStore StoreFiles) : Prop :=
  ∃ fresh files, WrittenFiles env files ∧
    loadOrCreate env fresh loadedAt files = .ok (s.store, s.files)

/-- Loading the files at `now` gives a clean store with the live part of `map`. -/
def Restores (key : Key) (map : Dict PeerId Token) (files : StoreFiles) (now : UInt64) : Prop :=
  ∀ fresh, ∃ loaded : Dict PeerId Token,
    (∀ k, loaded.lookup k = (map.lookup k).bind (liveToken now)) ∧
      loadOrCreate env fresh now files = .ok (⟨key, loaded, false⟩, files)

variable {env} {loadedAt : UInt64} {s s' : Deferred PushTokenStore StoreFiles}

/-- The data file stands for the tokens from `loadedAt` on. -/
abbrev Stands (env : DocEnv StoredToken) (loadedAt : UInt64) (data : Option Bytes)
    (mem : Key × Dict PeerId Token) : Prop :=
  StandsFor (readTokens env mem.1) (fun now _ => liveToken now) loadedAt data mem.2

/-- What a call may change. -/
def view (s : Deferred PushTokenStore StoreFiles) : Cached (Key × Dict PeerId Token) (Option Bytes) :=
  ⟨(s.store.key, s.store.map), s.store.dirty, s.files.data⟩

/-- A collection marks the store if it drops an entry. -/
theorem gcExpired_lawful (maxAge now : UInt64) :
    Lawful (Stands env loadedAt) (view s) (view { s with store := (s.store.gcExpired maxAge now).1 }) := by
  cases hdropped : decide (0 < (s.store.gcExpired maxAge now).2) with
  | true =>
    show Lawful _ _ ⟨_, (s.store.dirty || decide (0 < (s.store.gcExpired maxAge now).2)), _⟩
    rw [hdropped, Bool.or_true]
    exact .marked
  | false =>
    have hsame : (s.store.gcExpired maxAge now).1.map = s.store.map := by
      rw [decide_eq_false_iff_not, Nat.not_lt, Nat.le_zero] at hdropped
      rw [gcExpired_map]
      refine AList.retain_eq_self (Nat.le_antisymm (AList.len_retain_le _ _) ?_)
      exact Nat.le_of_sub_eq_zero hdropped
    show Lawful _ _ ⟨(s.store.key, (s.store.gcExpired maxAge now).1.map),
      (s.store.dirty || decide (0 < (s.store.gcExpired maxAge now).2)), _⟩
    rw [hdropped, Bool.or_false, hsame]
    exact .refl _ _

/-- Every call is lawful. -/
theorem exec_lawful (henv : env.Lawful) (call : Call) :
    Lawful (Stands env loadedAt) (view s) (view (exec env s call)) := by
  cases call with
  | insert peerId token now => exact .marked
  | remove peerId =>
    simp only [exec, remove]
    split
    · exact .marked
    · exact .refl _ _
  | gcExpired maxAge now => exact gcExpired_lawful maxAge now
  | flush write =>
    simp only [exec, flush]
    cases hdirty : s.store.dirty with
    | false => exact .refl _ _
    | true =>
      cases write with
      | none => exact .refl _ _
      | some nonce =>
        exact .written fun now _ => readTokens_persist henv s.store.key nonce s.store.map now

/-- No call touches the key or its file. -/
theorem exec_keyFile (call : Call) (h : s.files.keyFile = some s.store.key.1) :
    (exec env s call).files.keyFile = some (exec env s call).store.key.1 := by
  cases call with
  | insert peerId token now => exact h
  | remove peerId =>
    simp only [exec, remove]
    split
    · exact h
    · exact h
  | gcExpired maxAge now => exact h
  | flush write =>
    simp only [exec, flush]
    cases s.store.dirty with
    | false => exact h
    | true =>
      cases write with
      | none => exact h
      | some nonce => exact h

/-- A store that has just been loaded is synced. -/
theorem Loaded.start (henv : env.Lawful) (h : Loaded env loadedAt s) :
    s.files.keyFile = some s.store.key.1 ∧ Synced (Stands env loadedAt) (view s) := by
  obtain ⟨fresh, files, rfl | ⟨key, hkey, hdata⟩, hload⟩ := h
  · obtain ⟨store, files⟩ := s
    cases hload
    exact ⟨rfl, fun _ now _ => ⟨∅, rfl, fun _ => rfl⟩⟩
  · have hfile : ∃ saved : Dict PeerId Token, ∀ now, ∃ loaded, readTokens env key now files.data = .ok loaded ∧
        ∀ k, loaded.lookup k = (saved.lookup k).bind (liveToken now) := by
      rcases hdata with hnone | ⟨nonce, saved, hsome⟩
      · rw [hnone]
        exact ⟨∅, fun _ => ⟨∅, rfl, fun _ => rfl⟩⟩
      · rw [hsome]
        exact ⟨saved, fun now => readTokens_persist henv key nonce saved now⟩
    obtain ⟨saved, hfile⟩ := hfile
    obtain ⟨loaded, hread, _⟩ := hfile loadedAt
    rw [loadOrCreate_read hkey hread fresh] at hload
    obtain ⟨store, files⟩ := s
    cases hload
    exact ⟨hkey, fun _ => .of_read (fun _ _ _ _ h => liveToken_live h _)
      (fun now _ => hfile now) (fun _ h => h) (UInt64.le_refl loadedAt) hread⟩

/-- The tokens of a clean store are on disk, less what has expired. -/
theorem restores_of_clean (henv : env.Lawful) (hloaded : Loaded env loadedAt s)
    (hrun : Reach (fun s call s' => s' = exec env s call) (fun _ _ => True) s s')
    (hclean : s'.store.dirty = false) {now : UInt64} (hnow : loadedAt ≤ now) :
    Restores env s'.store.key s'.store.map s'.files now := by
  obtain ⟨hkey, hsynced⟩ := hloaded.start henv
  have hkey' := hrun.invariant (fun s => s.files.keyFile = some s.store.key.1)
    (fun h _ hstep => by rw [hstep]; exact exec_keyFile _ h) hkey
  have hsynced' := synced_of_reach view
    (fun hstep => by rw [hstep]; exact exec_lawful henv _) hrun hsynced
  obtain ⟨loaded, hread, hlook⟩ := hsynced' hclean now hnow
  exact fun fresh => ⟨loaded, hlook, loadOrCreate_read hkey' hread fresh⟩

/-- A flush that succeeds leaves a clean store with the same tokens. -/
theorem exec_flush (write : Write) (h : (s.store.flush env write s.files).1 = true) :
    (exec env s (.flush write)).store.dirty = false ∧
      (exec env s (.flush write)).store.key = s.store.key ∧
      (exec env s (.flush write)).store.map = s.store.map := by
  simp only [exec, flush] at h ⊢
  cases hdirty : s.store.dirty with
  | false => exact ⟨hdirty, rfl, rfl⟩
  | true =>
    rw [hdirty] at h
    cases write with
    | none => cases h
    | some nonce => exact ⟨rfl, rfl, rfl⟩

end PushTokenStore

/-! ## Bundle-request counters -/

namespace BundleReqRateStore

variable (env : DocEnv UInt32)

/-- A call on the store, with the clock where it reads one. -/
inductive Call where
  | increment (recipient : PeerId) (hour : UInt64)
  | gcStale (currentHour : UInt64)
  | flush (write : Write)

def exec (s : Deferred BundleReqRateStore StoreFiles) : Call → Deferred BundleReqRateStore StoreFiles
  | .increment recipient hour => { s with store := (s.store.increment recipient hour).1 }
  | .gcStale currentHour => { s with store := (s.store.gcStale currentHour).1 }
  | .flush write =>
    { s with
      store := (s.store.flush env write s.files).2.1
      files := (s.store.flush env write s.files).2.2 }

/-- A state directory that this store may have left, in an earlier process. -/
def WrittenFiles (files : StoreFiles) : Prop :=
  files = StoreFiles.fresh ∨
    ∃ key : Key, files.keyFile = some key.1 ∧
      (files.data = none ∨ ∃ nonce counts, files.data = some (persist env key nonce counts))

/-- The store as `load_or_create` returned it at `loadedAt`. -/
def Loaded (loadedAt : UInt64) (s : Deferred BundleReqRateStore StoreFiles) : Prop :=
  ∃ fresh files, WrittenFiles env files ∧
    loadOrCreate env fresh loadedAt files = .ok (s.store, s.files)

/-- Loading the files at `currentHour` gives a clean store with the live part of `counts`. -/
def Restores (key : Key) (counts : Dict Bucket UInt32) (files : StoreFiles) (currentHour : UInt64) : Prop :=
  ∀ fresh, ∃ loaded : Dict Bucket UInt32,
    (∀ k, loaded.lookup k = (counts.lookup k).bind (liveCount currentHour k)) ∧
      loadOrCreate env fresh currentHour files = .ok (⟨key, loaded, false⟩, files)

variable {env} {loadedAt : UInt64} {s s' : Deferred BundleReqRateStore StoreFiles}

/-- The data file stands for the counters from `loadedAt` on. -/
abbrev Stands (env : DocEnv UInt32) (loadedAt : UInt64) (data : Option Bytes)
    (mem : Key × Dict Bucket UInt32) : Prop :=
  StandsFor (readCounts env mem.1) liveCount loadedAt data mem.2

/-- What a call may change. -/
def view (s : Deferred BundleReqRateStore StoreFiles) : Cached (Key × Dict Bucket UInt32) (Option Bytes) :=
  ⟨(s.store.key, s.store.counts), s.store.dirty, s.files.data⟩

/-- A collection marks the store if it drops an entry. -/
theorem gcStale_lawful (currentHour : UInt64) :
    Lawful (Stands env loadedAt) (view s) (view { s with store := (s.store.gcStale currentHour).1 }) := by
  cases hdropped : decide (0 < (s.store.gcStale currentHour).2) with
  | true =>
    show Lawful _ _ ⟨_, (s.store.dirty || decide (0 < (s.store.gcStale currentHour).2)), _⟩
    rw [hdropped, Bool.or_true]
    exact .marked
  | false =>
    have hsame : (s.store.gcStale currentHour).1.counts = s.store.counts := by
      rw [decide_eq_false_iff_not, Nat.not_lt, Nat.le_zero] at hdropped
      rw [gcStale_counts]
      refine AList.retain_eq_self (Nat.le_antisymm (AList.len_retain_le _ _) ?_)
      exact Nat.le_of_sub_eq_zero hdropped
    show Lawful _ _ ⟨(s.store.key, (s.store.gcStale currentHour).1.counts),
      (s.store.dirty || decide (0 < (s.store.gcStale currentHour).2)), _⟩
    rw [hdropped, Bool.or_false, hsame]
    exact .refl _ _

/-- Every call is lawful. -/
theorem exec_lawful (henv : env.Lawful) (call : Call) :
    Lawful (Stands env loadedAt) (view s) (view (exec env s call)) := by
  cases call with
  | increment recipient hour => exact .marked
  | gcStale currentHour => exact gcStale_lawful currentHour
  | flush write =>
    simp only [exec, flush]
    cases hdirty : s.store.dirty with
    | false => exact .refl _ _
    | true =>
      cases write with
      | none => exact .refl _ _
      | some nonce =>
        exact .written fun now _ => readCounts_persist henv s.store.key nonce s.store.counts now

/-- No call touches the key or its file. -/
theorem exec_keyFile (call : Call) (h : s.files.keyFile = some s.store.key.1) :
    (exec env s call).files.keyFile = some (exec env s call).store.key.1 := by
  cases call with
  | increment recipient hour => exact h
  | gcStale currentHour => exact h
  | flush write =>
    simp only [exec, flush]
    cases s.store.dirty with
    | false => exact h
    | true =>
      cases write with
      | none => exact h
      | some nonce => exact h

/-- A store that has just been loaded is synced. -/
theorem Loaded.start (henv : env.Lawful) (h : Loaded env loadedAt s) :
    s.files.keyFile = some s.store.key.1 ∧ Synced (Stands env loadedAt) (view s) := by
  obtain ⟨fresh, files, rfl | ⟨key, hkey, hdata⟩, hload⟩ := h
  · obtain ⟨store, files⟩ := s
    cases hload
    exact ⟨rfl, fun _ now _ => ⟨∅, rfl, fun _ => rfl⟩⟩
  · have hfile : ∃ saved : Dict Bucket UInt32, ∀ now, ∃ loaded, readCounts env key now files.data = .ok loaded ∧
        ∀ k, loaded.lookup k = (saved.lookup k).bind (liveCount now k) := by
      rcases hdata with hnone | ⟨nonce, saved, hsome⟩
      · rw [hnone]
        exact ⟨∅, fun _ => ⟨∅, rfl, fun _ => rfl⟩⟩
      · rw [hsome]
        exact ⟨saved, fun now => readCounts_persist henv key nonce saved now⟩
    obtain ⟨saved, hfile⟩ := hfile
    obtain ⟨loaded, hread, _⟩ := hfile loadedAt
    rw [loadOrCreate_read hkey hread fresh] at hload
    obtain ⟨store, files⟩ := s
    cases hload
    exact ⟨hkey, fun _ => .of_read (fun _ _ _ _ h => liveCount_live h _ _)
      (fun now _ => hfile now) (fun _ h => h) (UInt64.le_refl loadedAt) hread⟩

/-- The counters of a clean store are on disk, less what has expired. -/
theorem restores_of_clean (henv : env.Lawful) (hloaded : Loaded env loadedAt s)
    (hrun : Reach (fun s call s' => s' = exec env s call) (fun _ _ => True) s s')
    (hclean : s'.store.dirty = false) {now : UInt64} (hnow : loadedAt ≤ now) :
    Restores env s'.store.key s'.store.counts s'.files now := by
  obtain ⟨hkey, hsynced⟩ := hloaded.start henv
  have hkey' := hrun.invariant (fun s => s.files.keyFile = some s.store.key.1)
    (fun h _ hstep => by rw [hstep]; exact exec_keyFile _ h) hkey
  have hsynced' := synced_of_reach view
    (fun hstep => by rw [hstep]; exact exec_lawful henv _) hrun hsynced
  obtain ⟨loaded, hread, hlook⟩ := hsynced' hclean now hnow
  exact fun fresh => ⟨loaded, hlook, loadOrCreate_read hkey' hread fresh⟩

/-- A flush that succeeds leaves a clean store with the same counters. -/
theorem exec_flush (write : Write) (h : (s.store.flush env write s.files).1 = true) :
    (exec env s (.flush write)).store.dirty = false ∧
      (exec env s (.flush write)).store.key = s.store.key ∧
      (exec env s (.flush write)).store.counts = s.store.counts := by
  simp only [exec, flush] at h ⊢
  cases hdirty : s.store.dirty with
  | false => exact ⟨hdirty, rfl, rfl⟩
  | true =>
    rw [hdirty] at h
    cases write with
    | none => cases h
    | some nonce => exact ⟨rfl, rfl, rfl⟩

end BundleReqRateStore

/-! ## The three stores -/

/-- After any calls on a store that was loaded at `loadedAt`, flushes that fail
among them, loading its files at `loadedAt` or later gives back what it holds,
less what has expired: if the store is clean, and after a flush that succeeds. -/
theorem deferred_persistence {pendingEnv : PendingEnv} (hpending : pendingEnv.Lawful)
    {tokenEnv : DocEnv StoredToken} (htokens : tokenEnv.Lawful) {countEnv : DocEnv UInt32}
    (hcounts : countEnv.Lawful) :
    (∀ loadedAt s s' now, PendingStore.Loaded pendingEnv loadedAt s →
        Reach (fun s call s' => s' = PendingStore.exec pendingEnv s call) (fun _ _ => True) s s' →
        loadedAt ≤ now →
        (s'.store.dirty = false →
          PendingStore.Restores pendingEnv s'.store.key s'.store.queues s'.files now) ∧
        ∀ write, (s'.store.tryFlush pendingEnv write s'.files).1 = true →
          PendingStore.Restores pendingEnv s'.store.key s'.store.queues
            (s'.store.tryFlush pendingEnv write s'.files).2.2 now) ∧
      (∀ loadedAt s s' now, PushTokenStore.Loaded tokenEnv loadedAt s →
        Reach (fun s call s' => s' = PushTokenStore.exec tokenEnv s call) (fun _ _ => True) s s' →
        loadedAt ≤ now →
        (s'.store.dirty = false →
          PushTokenStore.Restores tokenEnv s'.store.key s'.store.map s'.files now) ∧
        ∀ write, (s'.store.flush tokenEnv write s'.files).1 = true →
          PushTokenStore.Restores tokenEnv s'.store.key s'.store.map
            (s'.store.flush tokenEnv write s'.files).2.2 now) ∧
      ∀ loadedAt s s' now, BundleReqRateStore.Loaded countEnv loadedAt s →
        Reach (fun s call s' => s' = BundleReqRateStore.exec countEnv s call) (fun _ _ => True)
          s s' →
        loadedAt ≤ now →
        (s'.store.dirty = false →
          BundleReqRateStore.Restores countEnv s'.store.key s'.store.counts s'.files now) ∧
        ∀ write, (s'.store.flush countEnv write s'.files).1 = true →
          BundleReqRateStore.Restores countEnv s'.store.key s'.store.counts
            (s'.store.flush countEnv write s'.files).2.2 now := by
  refine ⟨?_, ?_, ?_⟩
  · intro loadedAt s s' now hloaded hrun hnow
    refine ⟨fun hclean => PendingStore.restores_of_clean hpending hloaded hrun hclean hnow, ?_⟩
    intro write hok
    obtain ⟨hclean, hkey, hqueues⟩ := PendingStore.exec_flush write hok
    rw [← hkey, ← hqueues]
    exact PendingStore.restores_of_clean hpending hloaded (hrun.snoc rfl trivial) hclean hnow
  · intro loadedAt s s' now hloaded hrun hnow
    refine ⟨fun hclean => PushTokenStore.restores_of_clean htokens hloaded hrun hclean hnow, ?_⟩
    intro write hok
    obtain ⟨hclean, hkey, hmap⟩ := PushTokenStore.exec_flush write hok
    rw [← hkey, ← hmap]
    exact PushTokenStore.restores_of_clean htokens hloaded (hrun.snoc rfl trivial) hclean hnow
  · intro loadedAt s s' now hloaded hrun hnow
    refine ⟨fun hclean => BundleReqRateStore.restores_of_clean hcounts hloaded hrun hclean hnow, ?_⟩
    intro write hok
    obtain ⟨hclean, hkey, hcounts'⟩ := BundleReqRateStore.exec_flush write hok
    rw [← hkey, ← hcounts']
    exact BundleReqRateStore.restores_of_clean hcounts hloaded (hrun.snoc rfl trivial) hclean hnow

/-! ## Runs -/

def zeroKey : Key := FixedBytes.replicate KEY_LEN 0
def zeroNonce : Nonce := FixedBytes.replicate NONCE_LEN 0

/-- The three stores as they are made in empty directories. -/
def freshPending : Deferred (PendingStore PendingFrame) PendingDisk :=
  ⟨OfflineQueue.smallStart.store, OfflineQueue.smallStart.disk⟩
def freshTokens : Deferred PushTokenStore StoreFiles := ⟨⟨zeroKey, ∅, false⟩, ⟨some zeroKey.1, none⟩⟩
def freshCounts : Deferred BundleReqRateStore StoreFiles :=
  ⟨⟨zeroKey, ∅, false⟩, ⟨some zeroKey.1, none⟩⟩

/-- The three stores after one change, a flush that fails, and one that does not. -/
def flushedPending : Deferred (PendingStore PendingFrame) PendingDisk :=
  [.enqueue [7] (PendingFrame.new [1, 2] 9), .flush none, .flush (some zeroNonce)].foldl
    (PendingStore.exec plainPendingEnv) freshPending
def flushedTokens : Deferred PushTokenStore StoreFiles :=
  [.insert [7] [1, 2] 5, .flush none, .flush (some zeroNonce)].foldl
    (PushTokenStore.exec plainTokenEnv) freshTokens
def flushedCounts : Deferred BundleReqRateStore StoreFiles :=
  [.increment [7] 4, .flush none, .flush (some zeroNonce)].foldl
    (BundleReqRateStore.exec plainCountEnv) freshCounts

/-- Calls that follow one another are a run. -/
theorem reach_foldl {S C : Type} (exec : S → C → S) (s : S) (calls : List C) :
    Reach (fun s call s' => s' = exec s call) (fun _ _ => True) s (calls.foldl exec s) := by
  induction calls using List.reverseRecOn with
  | nil => exact Reach.refl
  | append_singleton calls call ih =>
    rw [List.foldl_append]
    exact ih.snoc rfl trivial

/-- Each of them is clean then, holds its entry, and loads it again. -/
theorem deferred_persistence_sample :
    ((flushedPending.store.queues.lookup [7]).isSome ∧
        PendingStore.Restores plainPendingEnv zeroKey flushedPending.store.queues
          flushedPending.files 6) ∧
      (flushedTokens.store.map.lookup [7] = some ([1, 2], 5) ∧
        PushTokenStore.Restores plainTokenEnv zeroKey flushedTokens.store.map
          flushedTokens.files 6) ∧
      (flushedCounts.store.counts.lookup ([7], 4) = some 1 ∧
        BundleReqRateStore.Restores plainCountEnv zeroKey flushedCounts.store.counts
          flushedCounts.files 6) := by
  obtain ⟨hpending, htokens, hcounts⟩ := deferred_persistence plainPendingEnv_lawful
    plainTokenEnv_lawful plainCountEnv_lawful
  refine ⟨⟨by decide +kernel, ?_⟩, ⟨by decide +kernel, ?_⟩, ⟨by decide +kernel, ?_⟩⟩
  · have hloaded : PendingStore.Loaded plainPendingEnv 0 freshPending :=
      ⟨zeroKey, PendingDisk.fresh, 2, 4, 8, 5, by decide, .inl rfl, rfl⟩
    exact (hpending 0 freshPending flushedPending 6 hloaded (reach_foldl _ _ _)
      (by decide)).1 (by decide +kernel)
  · have hloaded : PushTokenStore.Loaded plainTokenEnv 0 freshTokens :=
      ⟨zeroKey, StoreFiles.fresh, .inl rfl, rfl⟩
    exact (htokens 0 freshTokens flushedTokens 6 hloaded (reach_foldl _ _ _)
      (by decide)).1 (by decide +kernel)
  · have hloaded : BundleReqRateStore.Loaded plainCountEnv 0 freshCounts :=
      ⟨zeroKey, StoreFiles.fresh, .inl rfl, rfl⟩
    exact (hcounts 0 freshCounts flushedCounts 6 hloaded (reach_foldl _ _ _)
      (by decide)).1 (by decide +kernel)

end Pizzini.Relay
