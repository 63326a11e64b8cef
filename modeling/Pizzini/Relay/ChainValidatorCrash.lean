import Pizzini.Lib.Runs
import Pizzini.Relay.ChainCalls
import Pizzini.Relay.PlainEnv

/-!
# Runs of the chain-validator store across crashes

The store as a system: files, an optional running process, and the time of
the last call. A step is a call run to its end, a call the process dies in, a
startup, or a startup the process dies in. The invariant is `Means`: whatever
happened, the files stand for a map, which is the map in memory while the
process runs.

Two results. *Refinement*: at every stop that loses no write,
`load_or_create` reads back the live part of the map in memory. *Replay
safety*: once `validate` has accepted an index, no later `validate` on the
chain accepts an index that is not greater, as long as no startup completes
on a journal that begins with a torn record. That condition is needed: a torn
first record is not cleared by startup, and hides the records appended after
it.
-/

namespace Pizzini.Relay

open Wire MonotoneLog Runs

/-! ## Calls as requests -/

/-- The calls of a running store. -/
inductive Request where
  | register (reg : ChainRegistration)
  | validate (peerId : Bytes) (chainId : ChainId) (index : UInt32) (value : ChainValue)
  | gcExpired

variable (env : ChainEnv) (maxAge : UInt64)

/-- The store and the writes a request leads to. -/
def perform (rand : Rand) (now : UInt64) (store : ChainValidatorStore) :
    Request → ChainValidatorStore × List DiskOp
  | .register reg =>
    let call := register env rand now store reg
    (call.store, call.ops)
  | .validate peerId chainId index value =>
    let call := validate env rand now store peerId chainId index value
    (call.store, call.ops)
  | .gcExpired =>
    let call := gcExpired env rand now maxAge store
    (call.store, call.ops)

/-- `validate` goes through exactly on an index beyond the chain's cursor; it
then appends the advanced state. -/
theorem validate_cases (rand : Rand) (now : UInt64) (store : ChainValidatorStore) (k : ChainKey)
    (index : UInt32) (value : ChainValue) :
    let call := validate env rand now store k.1 k.2 index value
    (call.store = store ∧ call.ops = [] ∧ call.result ≠ .ok .accepted) ∨
      ∃ old, store.map.lookup k = some old ∧ old.lastIndex < index ∧
        let state := { old with lastIndex := index, lastValue := value, lastUsedUnix := now }
        let appended := appendJournal env rand { store with map := store.map.insert k state }
          k.1 k.2.1 state
        call = { appended with result := appended.result.map fun _ => .accepted } := by
  simp only [validate]
  split
  · exact .inl ⟨rfl, rfl, by simp⟩
  · next old hold =>
    split
    · exact .inl ⟨rfl, rfl, by simp⟩
    · next hrange =>
      split
      · exact .inl ⟨rfl, rfl, by simp⟩
      · split
        · exact .inl ⟨rfl, rfl, by simp⟩
        · refine .inr ⟨old, hold, ?_, rfl⟩
          rw [not_or, not_or] at hrange
          exact UInt32.not_le.mp hrange.2.1

/-- The request gets past all its checks, and sets the entry of `k` to `state`. -/
inductive Change (now : UInt64) (store : ChainValidatorStore) :
    Request → ChainKey → ChainState → Prop where
  | register {reg : ChainRegistration}
      (hlength : ¬ (reg.length = 0 ∨ MAX_CHAIN_LENGTH < reg.length))
      (hnew : store.map.lookup reg.key = none) (htotal : store.map.len < MAX_TOTAL_CHAINS)
      (hpeer : ((store.map.keys.filter fun k => k.1 = reg.peerId.1).take
        MAX_CHAINS_PER_PEER).length < MAX_CHAINS_PER_PEER) :
      Change now store (.register reg) reg.key (freshState reg now)
  | validate {peerId : Bytes} {chainId : ChainId} {index : UInt32} {value : ChainValue}
      {old : ChainState} (hold : store.map.lookup (peerId, chainId) = some old)
      (hrange : ¬ (index = 0 ∨ index ≤ old.lastIndex ∨ old.length < index))
      (hsteps : ¬ MAX_VALIDATE_STEPS < index - old.lastIndex)
      (hvalue : ¬ ctDiff (env.blake3^[(index - old.lastIndex).toNat] value).1
        old.lastValue.1 ≠ 0) :
      Change now store (.validate peerId chainId index value) (peerId, chainId)
        (old.advance index value now)

/-- What a request does: nothing, set and append one entry, or compact the map
without its expired entries. -/
theorem perform_shape (rand : Rand) (now : UInt64) (store : ChainValidatorStore) (req : Request) :
    perform env maxAge rand now store req = (store, []) ∨
      (∃ k state, Change env now store req k state ∧
        let call := appendJournal env rand { store with map := store.map.insert k state }
          k.1 k.2.1 state
        perform env maxAge rand now store req = (call.store, call.ops)) ∨
      req = .gcExpired ∧ perform env maxAge rand now store req = compact env rand
        { store with map := store.map.retain fun _ e => decide (cut now maxAge < stamp e) } := by
  cases req with
  | register reg =>
    simp only [perform, register]
    split
    · exact .inl rfl
    next hlength =>
      split
      · split
        · exact .inl rfl
        · exact .inl rfl
      next hnone =>
        split
        · exact .inl rfl
        next htotal =>
          split
          · exact .inl rfl
          next hpeer =>
            refine .inr (.inl ⟨reg.key, _, .register hlength hnone ?_ ?_, rfl⟩)
            · exact Nat.lt_of_not_le htotal
            · exact Nat.lt_of_not_le hpeer
  | validate peerId chainId index value =>
    simp only [perform, validate]
    split
    · exact .inl rfl
    next old hold =>
      split
      · exact .inl rfl
      next hrange =>
        split
        · exact .inl rfl
        next hsteps =>
          split
          · exact .inl rfl
          next hvalue =>
            exact .inr (.inl ⟨_, _, .validate hold hrange hsteps hvalue, rfl⟩)
  | gcExpired =>
    have hretain : (store.map.retain fun _ e => decide (saturatingSub now maxAge < e.lastUsedUnix))
        = store.map.retain fun _ e => decide (cut now maxAge < stamp e) := by
      simp only [cutoff_lt_iff]
    simp only [perform, gcExpired, hretain]
    split
    · exact .inr (.inr ⟨trivial, rfl⟩)
    · next hremoved =>
      refine .inl ?_
      have hle := AList.len_retain_le (fun _ e => decide (cut now maxAge < stamp e)) store.map
      rw [AList.retain_eq_self (by omega)]

variable {env} in
/-- The entry a request sets is used now, and supersedes its key's. -/
theorem Change.supersedes {now : UInt64} {store : ChainValidatorStore} {req : Request}
    {k : ChainKey} {state : ChainState} (h : Change env now store req k state) :
    (k.1.length = 33 ∨ ∃ old, store.map.lookup k = some old) ∧ state.lastUsedUnix = now ∧
      ∀ old, store.map.lookup k = some old → rank old < rank state := by
  cases h with
  | @register reg _ hnew _ _ =>
    refine ⟨.inl reg.peerId.2, rfl, fun old hold => ?_⟩
    rw [hnew] at hold
    cases hold
  | @validate _ _ _ _ old hold hrange _ _ =>
    refine ⟨.inr ⟨old, hold⟩, rfl, fun old' hold' => ?_⟩
    rw [hold] at hold'
    cases hold'
    rw [not_or, not_or] at hrange
    exact UInt32.lt_iff_toNat_lt.mp (UInt32.not_le.mp hrange.2.1)

/-- What a request does: nothing, append one entry that supersedes its key's,
or compact the map without its expired entries. -/
theorem perform_cases (rand : Rand) (now : UInt64) (store : ChainValidatorStore) (req : Request) :
    perform env maxAge rand now store req = (store, []) ∨
      (∃ k state, (k.1.length = 33 ∨ ∃ old, store.map.lookup k = some old) ∧
        state.lastUsedUnix = now ∧
        (∀ old, store.map.lookup k = some old → rank old < rank state) ∧
        let call := appendJournal env rand { store with map := store.map.insert k state }
          k.1 k.2.1 state
        perform env maxAge rand now store req = (call.store, call.ops)) ∨
      perform env maxAge rand now store req = compact env rand
        { store with map := store.map.retain fun _ e => decide (cut now maxAge < stamp e) } := by
  obtain hnoop | ⟨k, state, hchange, happend⟩ | ⟨_, hcompact⟩ :=
    perform_shape env maxAge rand now store req
  · exact .inl hnoop
  · obtain ⟨hk, hused, hsup⟩ := hchange.supersedes
    exact .inr (.inl ⟨k, state, hk, hused, hsup, happend⟩)
  · exact .inr (.inr hcompact)

variable {env maxAge}

/-- Every request keeps the correspondence between files and map. -/
theorem perform_spec (henv : env.Lawful) (rand : Rand) {now : UInt64}
    {store : ChainValidatorStore} {disk : Disk}
    (h : Stands env maxAge now store.key disk store.map []) (req : Request) :
    CallSpec env maxAge now store.key disk store.map (perform env maxAge rand now store req).1
      (perform env maxAge rand now store req).2 := by
  obtain hnoop | ⟨k, state, hk, hused, hsup, happend⟩ | hcompact :=
    perform_cases env maxAge rand now store req
  · rw [hnoop]
    exact callSpec_noop h
  · have hlen : k.1.length = 33 := by
      obtain hlen | ⟨old, hold⟩ := hk
      · exact hlen
      · exact (h.entry hold).1
    obtain ⟨_, _, hspec⟩ := callSpec_appendJournal henv rand
      { store with map := store.map.insert k state } h rfl hlen hused hsup
    rw [happend]
    exact hspec
  · rw [hcompact]
    have hkept := h.retain (UInt64.le_refl now)
    exact callSpec_compact rand
      { store with map := store.map.retain fun _ e => decide (cut now maxAge < stamp e) } hkept

/-- A request only advances a chain that is not idle. -/
theorem perform_advances (henv : env.Lawful) (rand : Rand) {now : UInt64}
    {store : ChainValidatorStore} {disk : Disk}
    (h : Stands env maxAge now store.key disk store.map []) (req : Request) {k : ChainKey}
    {state : ChainState} (hk : store.map.lookup k = some state)
    (hlive : cut now maxAge < stamp state) :
    ∃ state', (perform env maxAge rand now store req).1.map.lookup k = some state' ∧
      state.lastIndex ≤ state'.lastIndex := by
  obtain hnoop | ⟨k', state', hk', hused, hsup, happend⟩ | hcompact :=
    perform_cases env maxAge rand now store req
  · rw [hnoop]
    exact ⟨state, hk, UInt32.le_refl _⟩
  · have hlen : k'.1.length = 33 := by
      obtain hlen | ⟨old, hold⟩ := hk'
      · exact hlen
      · exact (h.entry hold).1
    obtain ⟨_, hmap, _⟩ := callSpec_appendJournal henv rand
      { store with map := store.map.insert k' state' } h rfl hlen hused hsup
    rw [happend, hmap, AList.lookup_insert_of_eq_or_ne]
    split
    · next heq =>
      subst heq
      exact ⟨state', rfl, UInt32.le_iff_toNat_le.mpr (Nat.le_of_lt (hsup state hk))⟩
    · exact ⟨state, hk, UInt32.le_refl _⟩
  · rw [hcompact]
    refine ⟨state, ?_, UInt32.le_refl _⟩
    show (store.map.retain _).lookup k = some state
    rw [AList.lookup_retain, hk]
    simp [hlive]

/-- An accepted `validate` moves the chain's cursor to its index, from below. -/
theorem validate_accepted (henv : env.Lawful) (rand : Rand) {now : UInt64}
    {store : ChainValidatorStore} {disk : Disk}
    (h : Stands env maxAge now store.key disk store.map []) {k : ChainKey} {index : UInt32}
    {value : ChainValue}
    (hacc : (validate env rand now store k.1 k.2 index value).result = .ok .accepted) :
    ∃ old state, store.map.lookup k = some old ∧ old.lastIndex < index ∧
      (perform env maxAge rand now store (.validate k.1 k.2 index value)).1.map.lookup k =
        some state ∧ state.lastIndex = index := by
  obtain ⟨_, _, hrefused⟩ | ⟨old, hold, hlt, hcall⟩ :=
    validate_cases env rand now store k index value
  · exact absurd hacc hrefused
  · let state : ChainState :=
      { old with lastIndex := index, lastValue := value, lastUsedUnix := now }
    have hsup : ∀ old', store.map.lookup k = some old' → rank old' < rank state := by
      intro old' hold'
      rw [hold] at hold'
      cases hold'
      exact UInt32.lt_iff_toNat_lt.mp hlt
    obtain ⟨_, hmap, _⟩ := callSpec_appendJournal henv rand
      { store with map := store.map.insert k state } h rfl (h.entry hold).1 rfl hsup
    refine ⟨old, state, hold, hlt, ?_, rfl⟩
    show (validate env rand now store k.1 k.2 index value).store.map.lookup k = _
    rw [hcall]
    show (appendJournal env rand { store with map := store.map.insert k state } k.1 k.2.1
      state).store.map.lookup k = some state
    rw [hmap]
    exact AList.lookup_insert store.map

/-! ## The system -/

/-- The files, the running process if there is one, and the time of the last
event. -/
structure Sys where
  disk : Disk
  proc : Option ChainValidatorStore
  clock : UInt64

/-- A directory no process has run in. -/
def Sys.fresh (clock : UInt64) : Sys := ⟨Disk.fresh, none, clock⟩

/-- What can happen. A stop between two calls is a crash before the first
write of the second. -/
inductive Event where
  /-- a request runs to its end -/
  | call (req : Request) (rand : Rand) (now : UInt64)
  /-- the process dies in a request -/
  | callCrash (req : Request) (rand : Rand) (now : UInt64)
  /-- `load_or_create` runs to its end -/
  | start (rand : Rand) (nowPurge nowReplay : UInt64)
  /-- the process dies in `load_or_create` -/
  | startCrash (rand : Rand) (nowPurge nowReplay : UInt64)

/-- When an event ends. -/
def Event.now : Event → UInt64
  | .call _ _ now => now
  | .callCrash _ _ now => now
  | .start _ _ nowReplay => nowReplay
  | .startCrash _ _ nowReplay => nowReplay

variable (env maxAge)

/-- One event, under a clock that does not go back. -/
inductive Step : Sys → Event → Sys → Prop where
  | call {s : Sys} {store : ChainValidatorStore} {req : Request} {rand : Rand} {now : UInt64}
      (hproc : s.proc = some store) (hclock : s.clock ≤ now) :
      Step s (.call req rand now)
        ⟨runOps (perform env maxAge rand now store req).2 s.disk,
          some (perform env maxAge rand now store req).1, now⟩
  | callCrash {s : Sys} {store : ChainValidatorStore} {req : Request} {rand : Rand} {now : UInt64}
      {disk' : Disk} (hproc : s.proc = some store) (hclock : s.clock ≤ now)
      (hcrash : CrashIn (perform env maxAge rand now store req).2 s.disk disk') :
      Step s (.callCrash req rand now) ⟨disk', none, now⟩
  | start {s : Sys} {store : ChainValidatorStore} {ops : List DiskOp} {rand : Rand}
      {nowPurge nowReplay : UInt64} (hproc : s.proc = none) (hclock : s.clock ≤ nowPurge)
      (hnow : nowPurge ≤ nowReplay)
      (hload : loadOrCreate env rand maxAge nowPurge nowReplay s.disk = .ok (store, ops)) :
      Step s (.start rand nowPurge nowReplay) ⟨runOps ops s.disk, some store, nowReplay⟩
  | startCrash {s : Sys} {store : ChainValidatorStore} {ops : List DiskOp} {rand : Rand}
      {nowPurge nowReplay : UInt64} {disk' : Disk} (hproc : s.proc = none)
      (hclock : s.clock ≤ nowPurge) (hnow : nowPurge ≤ nowReplay)
      (hload : loadOrCreate env rand maxAge nowPurge nowReplay s.disk = .ok (store, ops))
      (hcrash : CrashIn ops s.disk disk') :
      Step s (.startCrash rand nowPurge nowReplay) ⟨disk', none, nowReplay⟩

/-- In this event `validate` returns `Accepted` for `k` at `index`. -/
def AcceptedAt (s : Sys) (ev : Event) (k : ChainKey) (index : UInt32) : Prop :=
  ∃ store value rand now, s.proc = some store ∧
    ev = .call (.validate k.1 k.2 index value) rand now ∧
    (validate env rand now store k.1 k.2 index value).result = .ok .accepted

/-- By the time of this event the entry of `k` has been idle for `max_age`:
the one in memory, or, with no process running, all that the files hold. -/
def IdleExpired (s : Sys) (ev : Event) (k : ChainKey) : Prop :=
  match s.proc with
  | some store => ∃ state, store.map.lookup k = some state ∧
      state.lastUsedUnix ≤ saturatingSub ev.now maxAge
  | none => (∃ state, Persisted env s.disk k state) ∧
      ∀ state, Persisted env s.disk k state → state.lastUsedUnix ≤ saturatingSub ev.now maxAge

/-- A startup that runs to its end finds a journal that is empty or begins
with a whole record. -/
def CleanStart (s : Sys) : Event → Prop
  | .start _ _ _ => CleanJournal s.disk
  | _ => True

/-! ## The invariant -/

/-- The system stands for `map`. -/
def Means (s : Sys) (map : Dict ChainKey ChainState) : Prop :=
  match s.proc with
  | some store => store.map = map ∧ Stands env maxAge s.clock store.key s.disk map []
  | none => ∃ torn, Startable env maxAge s.clock s.disk map torn

variable {env maxAge}

theorem startable_fresh (clock : UInt64) :
    Startable env maxAge clock Disk.fresh ∅ [] :=
  .blank ⟨rfl, rfl, rfl⟩ fun _ => rfl

/-- A chain in memory that has not expired is live. -/
theorem live_of_running {s : Sys} {ev : Event} {store : ChainValidatorStore}
    (hproc : s.proc = some store) {k : ChainKey} {state : ChainState}
    (hk : store.map.lookup k = some state) (hidle : ¬ IdleExpired env maxAge s ev k) :
    cut ev.now maxAge < stamp state := by
  simp only [IdleExpired, hproc, not_exists, not_and] at hidle
  have := hidle state hk
  rw [le_cutoff_iff, Nat.not_le] at this
  exact this

/-- A chain on disk that has not expired is live. -/
theorem live_of_stopped (henv : env.Lawful) {s : Sys} (ev : Event) (hproc : s.proc = none)
    {map : Dict ChainKey ChainState} {torn : Bytes}
    (h : Startable env maxAge s.clock s.disk map torn) (hclock : s.clock ≤ ev.now) {k : ChainKey} {state : ChainState}
    (hk : map.lookup k = some state) (hidle : ¬ IdleExpired env maxAge s ev k) :
    cut ev.now maxAge < stamp state := by
  cases h with
  | blank _ hempty =>
    rw [hempty k] at hk
    cases hk
  | stands hstands =>
    simp only [IdleExpired, hproc, not_and, not_forall] at hidle
    -- something persisted is still live, and the map's entry is at least as new
    obtain ⟨state₁, hper, hused⟩ := hidle ⟨state, hstands.persisted henv hk⟩
    rw [le_cutoff_iff, Nat.not_le] at hused
    have hlive : cut s.clock maxAge < stamp state₁ :=
      Nat.lt_of_le_of_lt (cut_mono hclock) hused
    exact Nat.lt_of_lt_of_le hused (hstands.stamp_le_of_persisted henv hper hlive hk)

/-- One event keeps the invariant, and advances every chain that has not been
idle for too long. -/
theorem step_means (henv : env.Lawful) {s s' : Sys} {ev : Event} {map : Dict ChainKey ChainState}
    (h : Means env maxAge s map) (hclean : CleanStart s ev) (hstep : Step env maxAge s ev s') :
    ∃ map', Means env maxAge s' map' ∧ ∀ k state, map.lookup k = some state →
      ¬ IdleExpired env maxAge s ev k →
        ∃ state', map'.lookup k = some state' ∧ state.lastIndex ≤ state'.lastIndex := by
  cases hstep with
  | @call store req rand now hproc hclock =>
    simp only [Means, hproc] at h
    obtain ⟨rfl, hstands⟩ := h
    have hnow := hstands.mono hclock
    have hspec := perform_spec henv rand hnow req
    refine ⟨(perform env maxAge rand now store req).1.map, ⟨rfl, ?_⟩, fun k state hk hidle => ?_⟩
    · rw [hspec.keyKept]
      exact hspec.run
    · exact perform_advances henv rand hnow req hk (live_of_running hproc hk hidle)
  | @callCrash store req rand now disk' hproc hclock hcrash =>
    simp only [Means, hproc] at h
    obtain ⟨rfl, hstands⟩ := h
    have hnow := hstands.mono hclock
    obtain ⟨m, torn, hm, hstands'⟩ := (perform_spec henv rand hnow req).crash disk' hcrash
    refine ⟨m, ⟨torn, .stands hstands'⟩, fun k state hk hidle => ?_⟩
    -- the files stand for the map before the call or after it
    obtain rfl | rfl := hm
    · exact ⟨state, hk, UInt32.le_refl _⟩
    · exact perform_advances henv rand hnow req hk (live_of_running hproc hk hidle)
  | @start store ops rand nowPurge nowReplay hproc hclock hnow hload =>
    simp only [Means, hproc] at h
    obtain ⟨torn, h⟩ := h
    obtain ⟨store', ops', hload', hspec⟩ := h.loadOrCreate_spec henv rand hclock hnow
    rw [hload] at hload'
    cases hload'
    refine ⟨store.map, ⟨rfl, hspec.run hclean⟩, fun k state hk hidle => ?_⟩
    have hlive := live_of_stopped henv (.start rand nowPurge nowReplay) hproc h
      (UInt64.le_trans hclock hnow) hk hidle
    exact ⟨state, hspec.live k state hk hlive, UInt32.le_refl _⟩
  | @startCrash store ops rand nowPurge nowReplay disk' hproc hclock hnow hload hcrash =>
    simp only [Means, hproc] at h
    obtain ⟨torn, h⟩ := h
    obtain ⟨store', ops', hload', hspec⟩ := h.loadOrCreate_spec henv rand hclock hnow
    rw [hload] at hload'
    cases hload'
    refine ⟨store.map, hspec.crash disk' hcrash, fun k state hk hidle => ?_⟩
    have hlive := live_of_stopped henv (.startCrash rand nowPurge nowReplay) hproc h
      (UInt64.le_trans hclock hnow) hk hidle
    exact ⟨state, hspec.live k state hk hlive, UInt32.le_refl _⟩

/-- Every state of a run with clean startups stands for some map. -/
theorem reach_means (henv : env.Lawful) {clock : UInt64} {s : Sys}
    (h : Reach (Step env maxAge) CleanStart (Sys.fresh clock) s) : ∃ map, Means env maxAge s map := by
  refine h.invariant (fun s => ∃ map, Means env maxAge s map) ?_ ⟨∅, [], startable_fresh clock⟩
  rintro s ev s' ⟨map, hmeans⟩ hclean hstep
  obtain ⟨map', hmeans', _⟩ := step_means henv hmeans hclean hstep
  exact ⟨map', hmeans'⟩

/-! ## Running forward

Executable forms of the completed events, for runs on concrete inputs. -/

variable (env maxAge)

/-- The state after `load_or_create`. -/
def Sys.started (rand : Rand) (now : UInt64) (s : Sys) : Sys :=
  match loadOrCreate env rand maxAge now now s.disk with
  | .ok (store, ops) => ⟨runOps ops s.disk, some store, now⟩
  | .error _ => s

/-- The state after a request. -/
def Sys.called (rand : Rand) (now : UInt64) (req : Request) (s : Sys) : Sys :=
  match s.proc with
  | some store => ⟨runOps (perform env maxAge rand now store req).2 s.disk,
      some (perform env maxAge rand now store req).1, now⟩
  | none => s

/-- The state after the process has gone. -/
def Sys.stopped (s : Sys) : Sys := ⟨s.disk, none, s.clock⟩

@[simp] theorem Sys.stopped_clock (s : Sys) : s.stopped.clock = s.clock := rfl

variable {env maxAge}

/-- A process is running, and the last event was at `now`. -/
def Sys.Running (s : Sys) (now : UInt64) : Prop := s.proc.isSome = true ∧ s.clock = now

theorem running_started {s : Sys} {rand : Rand} {now : UInt64}
    (hok : (loadOrCreate env rand maxAge now now s.disk).isOk = true) :
    (s.started env maxAge rand now).Running now := by
  unfold Sys.started
  split
  · exact ⟨rfl, rfl⟩
  · next e hload =>
    rw [hload] at hok
    cases hok

theorem running_called {s : Sys} {t : UInt64} (h : s.Running t) (rand : Rand) (now : UInt64)
    (req : Request) : (s.called env maxAge rand now req).Running now := by
  obtain ⟨store, hproc⟩ := Option.isSome_iff_exists.mp h.1
  simp only [Sys.called, hproc]
  exact ⟨rfl, rfl⟩

theorem step_started {s : Sys} (rand : Rand) {now : UInt64} (hproc : s.proc = none)
    (hclock : s.clock ≤ now) (hok : (loadOrCreate env rand maxAge now now s.disk).isOk = true) :
    Step env maxAge s (.start rand now now) (s.started env maxAge rand now) := by
  unfold Sys.started
  split
  · next store ops hload => exact .start hproc hclock (UInt64.le_refl _) hload
  · next e hload =>
    rw [hload] at hok
    cases hok

theorem step_called {s : Sys} {t : UInt64} (h : s.Running t) (rand : Rand) (now : UInt64)
    (req : Request) (hclock : t ≤ now) :
    Step env maxAge s (.call req rand now) (s.called env maxAge rand now req) := by
  obtain ⟨store, hproc⟩ := Option.isSome_iff_exists.mp h.1
  simp only [Sys.called, hproc]
  exact .call hproc (h.2 ▸ hclock)

theorem step_stopped {s : Sys} {t : UInt64} (h : s.Running t) (rand : Rand) (req : Request) :
    Step env maxAge s (.callCrash req rand t) s.stopped := by
  obtain ⟨store, hproc⟩ := Option.isSome_iff_exists.mp h.1
  obtain rfl := h.2
  exact .callCrash hproc (UInt64.le_refl _) .stop

theorem acceptedAt_of_eval (env : ChainEnv) (s : Sys) (rand : Rand) (now : UInt64)
    (k : ChainKey) (index : UInt32) (value : ChainValue)
    (h : s.proc.map (fun store => (validate env rand now store k.1 k.2 index value).result.toOption)
      = some (some .accepted)) :
    AcceptedAt env s (.call (.validate k.1 k.2 index value) rand now) k index := by
  obtain ⟨store, hproc, hresult⟩ := Option.map_eq_some_iff.mp h
  refine ⟨store, value, rand, now, hproc, rfl, ?_⟩
  cases hres : (validate env rand now store k.1 k.2 index value).result with
  | ok outcome =>
    rw [hres] at hresult
    rw [Option.some.inj hresult]
  | error e =>
    rw [hres] at hresult
    cases hresult

theorem not_idleExpired_of_running {s : Sys} {ev : Event} {k : ChainKey}
    (h : s.proc.map (fun store => (store.map.lookup k).all fun state =>
      decide (saturatingSub ev.now maxAge < state.lastUsedUnix)) = some true) :
    ¬ IdleExpired env maxAge s ev k := by
  obtain ⟨store, hproc, hall⟩ := Option.map_eq_some_iff.mp h
  simp only [IdleExpired, hproc]
  rintro ⟨state, hk, hused⟩
  rw [hk, Option.all_some, decide_eq_true_iff] at hall
  exact UInt64.not_le.mpr hall hused

/-- Files without a snapshot and without a readable record persist nothing. -/
theorem not_idleExpired_of_unreadable {s : Sys} {ev : Event} {k : ChainKey} (key : Key)
    (hproc : s.proc = none) (hkey : s.disk.keyFile = some key.1)
    (hsnap : s.disk.snapshot = none) (hrecords : journalRecords env key s.disk.journalBytes = []) :
    ¬ IdleExpired env maxAge s ev k := by
  simp only [IdleExpired, hproc]
  rintro ⟨⟨state, key', hkey', hfile⟩, _⟩
  have heq : key' = key := Subtype.ext (Option.some.inj (hkey'.symm.trans hkey))
  subst heq
  obtain ⟨_, _, _, _, _, hbytes, _⟩ | ⟨record, hmem, _⟩ := hfile
  · rw [hsnap] at hbytes
    cases hbytes
  · rw [hrecords] at hmem
    cases hmem

/-- Fixed random bytes. -/
def zeroRand : Rand where
  key := .replicate _ 0
  recordNonce := .replicate _ 0
  snapshotNonce := .replicate _ 0

/-- A chain of length 2: its tokens are the bytes 7 and 6 repeated. -/
def sampleReg : ChainRegistration where
  peerId := .replicate _ 1
  chainId := .replicate _ 2
  root := .replicate _ 8
  length := 2

/-- A first process on a fresh directory. -/
def sampleFirst : Sys := (Sys.fresh 1).started plainEnv 100 zeroRand 1

/-- It registers the chain, which is one journal record. -/
def sampleRegistered : Sys := sampleFirst.called plainEnv 100 zeroRand 1 (.register sampleReg)

/-- A restart, which folds the record into the snapshot. -/
def sampleRestarted : Sys := sampleRegistered.stopped.started plainEnv 100 zeroRand 1

theorem step_sampleFirst :
    Step plainEnv 100 (Sys.fresh 1) (.start zeroRand 1 1) sampleFirst :=
  step_started zeroRand rfl (UInt64.le_refl _) rfl

theorem running_sampleRegistered : sampleRegistered.Running 1 :=
  running_called (running_started rfl) _ _ _

theorem step_sampleRegistered :
    Step plainEnv 100 sampleFirst (.call (.register sampleReg) zeroRand 1) sampleRegistered :=
  step_called (running_started rfl) zeroRand 1 _ (UInt64.le_refl _)

/-- The restart reads the files of the first process. -/
theorem load_sampleRegistered :
    (loadOrCreate plainEnv zeroRand 100 1 1 sampleRegistered.stopped.disk).isOk = true := by
  decide +kernel

theorem step_sampleRestarted :
    Step plainEnv 100 sampleRegistered.stopped (.start zeroRand 1 1) sampleRestarted :=
  step_started zeroRand rfl (running_sampleRegistered.2 ▸ UInt64.le_refl _) load_sampleRegistered

/-! ## Refinement -/

variable (env maxAge)

/-- The process stops with `map` in memory, no write being lost: between two
calls, or inside a compaction (of a request, or of startup) with the snapshot
written and the journal not yet truncated. -/
inductive Stops : Sys → Dict ChainKey ChainState → Sys → Prop where
  | idle {s : Sys} {store : ChainValidatorStore} (hproc : s.proc = some store) :
      Stops s store.map ⟨s.disk, none, s.clock⟩
  | compacting {s : Sys} {store : ChainValidatorStore} {req : Request} {rand : Rand}
      {now : UInt64} {disk' : Disk} (hproc : s.proc = some store) (hclock : s.clock ≤ now)
      (hmid : MidCompact (perform env maxAge rand now store req).2 s.disk disk') :
      Stops s (perform env maxAge rand now store req).1.map ⟨disk', none, now⟩
  | starting {s : Sys} {store : ChainValidatorStore} {ops : List DiskOp} {rand : Rand}
      {nowPurge nowReplay : UInt64} {disk' : Disk} (hproc : s.proc = none)
      (hclock : s.clock ≤ nowPurge) (hnow : nowPurge ≤ nowReplay)
      (hload : loadOrCreate env rand maxAge nowPurge nowReplay s.disk = .ok (store, ops))
      (hmid : MidCompact ops s.disk disk') :
      Stops s store.map ⟨disk', none, nowReplay⟩

/-- A step in which every file operation succeeds: a request or a startup run
to its end, or a stop. -/
inductive SmoothStep : Sys → Option Event → Sys → Prop where
  | call {s s' : Sys} {req : Request} {rand : Rand} {now : UInt64}
      (h : Step env maxAge s (.call req rand now) s') : SmoothStep s (some (.call req rand now)) s'
  | start {s s' : Sys} {rand : Rand} {nowPurge nowReplay : UInt64}
      (h : Step env maxAge s (.start rand nowPurge nowReplay) s') :
      SmoothStep s (some (.start rand nowPurge nowReplay)) s'
  | stop {s s' : Sys} {map : Dict ChainKey ChainState} (h : Stops env maxAge s map s') :
      SmoothStep s none s'

/-- The system stands for `map`, with nothing torn in the journal. -/
def SmoothMeans (s : Sys) (map : Dict ChainKey ChainState) : Prop :=
  match s.proc with
  | some store => store.map = map ∧ Stands env maxAge s.clock store.key s.disk map []
  | none => Startable env maxAge s.clock s.disk map []

variable {env maxAge}

/-- At a stop, the files stand for the map in memory. -/
theorem stops_means (henv : env.Lawful) {s s' : Sys} {map map' : Dict ChainKey ChainState}
    (h : SmoothMeans env maxAge s map) (hstop : Stops env maxAge s map' s') :
    s'.proc = none ∧ Startable env maxAge s'.clock s'.disk map' [] := by
  cases hstop with
  | idle hproc =>
    simp only [SmoothMeans, hproc] at h
    obtain ⟨rfl, hstands⟩ := h
    exact ⟨rfl, .stands hstands⟩
  | @compacting store req rand now disk' hproc hclock hmid =>
    simp only [SmoothMeans, hproc] at h
    obtain ⟨rfl, hstands⟩ := h
    exact ⟨rfl, .stands ((perform_spec henv rand (hstands.mono hclock) req).midCompact disk' hmid)⟩
  | @starting store ops rand nowPurge nowReplay disk' hproc hclock hnow hload hmid =>
    simp only [SmoothMeans, hproc] at h
    obtain ⟨store', ops', hload', hspec⟩ := h.loadOrCreate_spec henv rand hclock hnow
    rw [hload] at hload'
    cases hload'
    exact ⟨rfl, hspec.midCompact disk' hmid⟩

theorem smoothStep_means (henv : env.Lawful) {s s' : Sys} {ev : Option Event}
    {map : Dict ChainKey ChainState} (h : SmoothMeans env maxAge s map)
    (hstep : SmoothStep env maxAge s ev s') : ∃ map', SmoothMeans env maxAge s' map' := by
  cases hstep with
  | @call _ req rand now hstep =>
    cases hstep with
    | call hproc hclock =>
      simp only [SmoothMeans, hproc] at h
      obtain ⟨rfl, hstands⟩ := h
      have hspec := perform_spec henv rand (hstands.mono hclock) req
      refine ⟨_, rfl, ?_⟩
      rw [hspec.keyKept]
      exact hspec.run
  | @start _ rand nowPurge nowReplay hstep =>
    cases hstep with
    | start hproc hclock hnow hload =>
      simp only [SmoothMeans, hproc] at h
      obtain ⟨store', ops', hload', hspec⟩ := h.loadOrCreate_spec henv rand hclock hnow
      rw [hload] at hload'
      cases hload'
      exact ⟨_, rfl, hspec.run h.cleanJournal⟩
  | @stop _ map' hstop =>
    obtain ⟨hproc, hstart⟩ := stops_means henv h hstop
    refine ⟨map', ?_⟩
    simp only [SmoothMeans, hproc]
    exact hstart

/-- **Snapshot plus journal refine the map in memory**: after any run whose
file operations all succeed, a stop between two calls or inside a compaction,
and a later startup, every chain is looked up to its state at the stop, or to
nothing if it has expired. -/
theorem load_refines_memory (henv : env.Lawful) {clock now : UInt64} {s s' : Sys}
    {map : Dict ChainKey ChainState}
    (hrun : Reach (SmoothStep env maxAge) (fun _ _ => True) (Sys.fresh clock) s)
    (hstop : Stops env maxAge s map s') (rand : Rand) (hnow : s'.clock ≤ now) :
    ∃ store ops, loadOrCreate env rand maxAge now now s'.disk = .ok (store, ops) ∧
      ∀ k, store.map.lookup k = (map.lookup k).filter fun state =>
        decide (saturatingSub now maxAge < state.lastUsedUnix) := by
  obtain ⟨map₀, hmeans⟩ : ∃ map, SmoothMeans env maxAge s map := by
    refine hrun.invariant (fun s => ∃ map, SmoothMeans env maxAge s map) ?_
      ⟨∅, startable_fresh clock⟩
    rintro s ev s' ⟨map, hmeans⟩ _ hstep
    exact smoothStep_means henv hmeans hstep
  obtain ⟨_, hstart⟩ := stops_means henv hmeans hstop
  obtain ⟨store, ops, hload, hspec⟩ :=
    hstart.loadOrCreate_spec henv rand hnow (UInt64.le_refl now)
  refine ⟨store, ops, hload, fun k => ?_⟩
  rw [hspec.lookup rfl k]
  simp only [cutoff_lt_iff]

/-- After a restart, with one chain in memory. -/
theorem load_refines_memory_restarted :
    ∃ memory, sampleRestarted.proc = some memory ∧ memory.map.len = 1 ∧
      ∃ store ops, loadOrCreate plainEnv zeroRand 100 2 2 sampleRestarted.stopped.disk =
          .ok (store, ops) ∧
        ∀ k, store.map.lookup k = (memory.map.lookup k).filter fun state =>
          decide (saturatingSub 2 100 < state.lastUsedUnix) := by
  obtain ⟨memory, hproc, hlen⟩ : ∃ memory, sampleRestarted.proc = some memory ∧
      memory.map.len = 1 :=
    Option.map_eq_some_iff.mp (show sampleRestarted.proc.map (·.map.len) = some 1 by
      decide +kernel)
  have hrun : Reach (SmoothStep plainEnv 100) (fun _ _ => True) (Sys.fresh 1) sampleRestarted := by
    obtain ⟨store, hsome⟩ : ∃ store, sampleRegistered.proc = some store :=
      Option.isSome_iff_exists.mp running_sampleRegistered.1
    have hstop : Stops plainEnv 100 sampleRegistered store.map sampleRegistered.stopped :=
      .idle hsome
    exact (((Reach.refl.snoc (.start step_sampleFirst) trivial).snoc
      (.call step_sampleRegistered) trivial).snoc (.stop hstop) trivial).snoc
      (.start step_sampleRestarted) trivial
  have hstop : Stops plainEnv 100 sampleRestarted memory.map sampleRestarted.stopped := .idle hproc
  have hrunning : sampleRestarted.Running 1 := running_started load_sampleRegistered
  have hlater : sampleRestarted.stopped.clock ≤ 2 := by
    rw [Sys.stopped_clock, hrunning.2]
    decide
  exact ⟨memory, hproc, hlen, load_refines_memory plainEnv_lawful hrun hstop zeroRand hlater⟩

/-! ## Replay safety -/

variable (env maxAge)

/-- Delivery tokens cannot be replayed along runs whose events meet `ok`: once
`validate` has accepted `i` for `k`, it accepts only greater indices for `k`
until the entry has been idle for `max_age`. -/
def ReplaySafe (ok : Sys → Event → Prop) : Prop :=
  ∀ {clock : UInt64} {k : ChainKey} {i j : UInt32} {s₁ s₂ s₃ : Sys} {ev₁ ev₂ : Event},
    Reach (Step env maxAge) ok (Sys.fresh clock) s₁ →
    Step env maxAge s₁ ev₁ s₂ → ok s₁ ev₁ → AcceptedAt env s₁ ev₁ k i →
    Reach (Step env maxAge) (fun s ev => ok s ev ∧ ¬ IdleExpired env maxAge s ev k) s₂ s₃ →
    (∃ s₄, Step env maxAge s₃ ev₂ s₄) → AcceptedAt env s₃ ev₂ k j → i < j

variable {env maxAge}

/-- The cursor of `k` stands at `i` or beyond. -/
def Spent (env : ChainEnv) (maxAge : UInt64) (k : ChainKey) (i : UInt32) (s : Sys) : Prop :=
  ∃ map state, Means env maxAge s map ∧ map.lookup k = some state ∧ i ≤ state.lastIndex

/-- **Replay safety**, on every run in which no startup completes on a journal
that begins with a torn record. -/
theorem replaySafe_of_cleanStart (henv : env.Lawful) : ReplaySafe env maxAge CleanStart := by
  intro clock k i j s₁ s₂ s₃ ev₁ ev₂ hreach hstep hok hacc hrun hlast hacc'
  -- the first acceptance leaves the cursor at `i`
  have hspent₂ : Spent env maxAge k i s₂ := by
    obtain ⟨map, hmeans⟩ := reach_means henv hreach
    obtain ⟨store, value, rand, now, hproc, rfl, hresult⟩ := hacc
    cases hstep with
    | call hproc' hclock =>
      rw [hproc] at hproc'
      cases hproc'
      simp only [Means, hproc] at hmeans
      obtain ⟨rfl, hstands⟩ := hmeans
      have hnow := hstands.mono hclock
      obtain ⟨_, state, _, _, hlook, rfl⟩ := validate_accepted henv rand hnow hresult
      have hspec := perform_spec henv rand hnow (.validate k.1 k.2 state.lastIndex value)
      refine ⟨_, state, ⟨rfl, ?_⟩, hlook, UInt32.le_refl _⟩
      rw [hspec.keyKept]
      exact hspec.run
  -- it stays there, or advances, up to the second one
  have hspent₃ : Spent env maxAge k i s₃ := by
    refine hrun.invariant (Spent env maxAge k i) ?_ hspent₂
    rintro s ev s' ⟨map, state, hmeans, hlook, hle⟩ ⟨hclean, hidle⟩ hstep
    obtain ⟨map', hmeans', hadv⟩ := step_means henv hmeans hclean hstep
    obtain ⟨state', hlook', hle'⟩ := hadv k state hlook hidle
    exact ⟨map', state', hmeans', hlook', UInt32.le_trans hle hle'⟩
  obtain ⟨map, state, hmeans, hlook, hle⟩ := hspent₃
  obtain ⟨store, value, rand, now, hproc, rfl, hresult⟩ := hacc'
  obtain ⟨s₄, hstep₄⟩ := hlast
  cases hstep₄ with
  | call hproc' hclock =>
    rw [hproc] at hproc'
    cases hproc'
    simp only [Means, hproc] at hmeans
    obtain ⟨rfl, hstands⟩ := hmeans
    obtain ⟨old, _, hold, hlt, _⟩ := validate_accepted henv rand (hstands.mono hclock) hresult
    rw [hlook] at hold
    cases hold
    exact UInt32.lt_of_le_of_lt hle hlt

/-- A run in one process: its token 1 is accepted, then its token 2. The process
starts on a journal with one whole record. -/
theorem replaySafe_restarted :
    AcceptedAt plainEnv sampleRestarted
        (.call (.validate sampleReg.key.1 sampleReg.key.2 1 (.replicate _ 7)) zeroRand 1)
        sampleReg.key 1 ∧
      AcceptedAt plainEnv
        (sampleRestarted.called plainEnv 100 zeroRand 1
          (.validate sampleReg.key.1 sampleReg.key.2 1 (.replicate _ 7)))
        (.call (.validate sampleReg.key.1 sampleReg.key.2 2 (.replicate _ 6)) zeroRand 1)
        sampleReg.key 2 ∧
      (1 : UInt32) < 2 := by
  have hempty : CleanJournal (Sys.fresh 1).disk := .inl rfl
  have hwhole : CleanJournal sampleRegistered.stopped.disk := .inr (by decide +kernel)
  have hstop : Step plainEnv 100 sampleRegistered (.callCrash .gcExpired zeroRand 1)
      sampleRegistered.stopped := step_stopped running_sampleRegistered zeroRand _
  have hrunning : sampleRestarted.Running 1 := running_started load_sampleRegistered
  have hreach : Reach (Step plainEnv 100) CleanStart (Sys.fresh 1) sampleRestarted :=
    (((Reach.refl.snoc step_sampleFirst hempty).snoc step_sampleRegistered trivial).snoc
      hstop trivial).snoc step_sampleRestarted hwhole
  have hacc₁ := acceptedAt_of_eval plainEnv sampleRestarted zeroRand 1 sampleReg.key 1
    (.replicate _ 7) (by decide +kernel)
  have hacc₂ := acceptedAt_of_eval plainEnv
    (sampleRestarted.called plainEnv 100 zeroRand 1
      (.validate sampleReg.key.1 sampleReg.key.2 1 (.replicate _ 7)))
    zeroRand 1 sampleReg.key 2 (.replicate _ 6) (by decide +kernel)
  have hstep₁ : Step plainEnv 100 sampleRestarted
      (.call (.validate sampleReg.key.1 sampleReg.key.2 1 (.replicate _ 7)) zeroRand 1)
      (sampleRestarted.called plainEnv 100 zeroRand 1
        (.validate sampleReg.key.1 sampleReg.key.2 1 (.replicate _ 7))) :=
    step_called hrunning _ _ _ (UInt64.le_refl _)
  have hstep₂ : Step plainEnv 100 (sampleRestarted.called plainEnv 100 zeroRand 1
        (.validate sampleReg.key.1 sampleReg.key.2 1 (.replicate _ 7)))
      (.call (.validate sampleReg.key.1 sampleReg.key.2 2 (.replicate _ 6)) zeroRand 1) _ :=
    step_called (running_called hrunning _ _ _) _ _ _ (UInt64.le_refl _)
  exact ⟨hacc₁, hacc₂, replaySafe_of_cleanStart plainEnv_lawful hreach hstep₁ trivial hacc₁
    Reach.refl ⟨_, hstep₂⟩ hacc₂⟩

/-! ## A torn first record -/

def tornToken : Request := .validate sampleReg.peerId.1 sampleReg.chainId 1 (.replicate _ 7)

/-- The first process dies one byte into its first journal record. -/
def tornCrashed : Sys := ⟨⟨some zeroRand.key.1, none, some [0]⟩, none, 1⟩

/-- The second process starts on that byte and registers the chain. -/
def tornRegistered : Sys :=
  (tornCrashed.started plainEnv 100 zeroRand 1).called plainEnv 100 zeroRand 1 (.register sampleReg)

/-- It accepts the first token and stops. -/
def tornAccepted : Sys := tornRegistered.called plainEnv 100 zeroRand 1 tornToken

/-- The third process reads nothing back and registers the chain again. -/
def tornAgain : Sys :=
  (tornAccepted.stopped.started plainEnv 100 zeroRand 1).called plainEnv 100 zeroRand 1
    (.register sampleReg)

theorem step_tornCrashed :
    Step plainEnv 100 sampleFirst (.callCrash (.register sampleReg) zeroRand 1) tornCrashed := by
  let framed := frame (journalCiphertext plainEnv zeroRand zeroRand.key sampleReg.peerId.1
    sampleReg.chainId.1 ⟨sampleReg.root, 2, 0, sampleReg.root, 1, 1⟩)
  have hops : (perform plainEnv 100 zeroRand 1 ⟨zeroRand.key, ∅, 0⟩ (.register sampleReg)).2 =
      [.appendJournal framed] := by
    decide +kernel
  have hdisk : tornCrashed.disk =
      { sampleFirst.disk with
        journal := some (sampleFirst.disk.journalBytes ++ framed.take 1) } := by
    decide +kernel
  have hcrash : CrashIn (perform plainEnv 100 zeroRand 1 ⟨zeroRand.key, ∅, 0⟩
      (.register sampleReg)).2 sampleFirst.disk tornCrashed.disk := by
    rw [hops, hdisk]
    exact .torn (by decide +kernel)
  exact .callCrash rfl (UInt64.le_refl _) hcrash

/-- A torn first record makes the store accept a token twice: the records of
the second process stand behind it and are never read back. -/
theorem torn_first_record_replays :
    plainEnv.Lawful ∧ ¬ ReplaySafe plainEnv 100 (fun _ _ => True) := by
  refine ⟨plainEnv_lawful, fun hsafe => ?_⟩
  have hload₂ : (loadOrCreate plainEnv zeroRand 100 1 1 tornCrashed.disk).isOk = true := by
    decide +kernel
  have hload₃ : (loadOrCreate plainEnv zeroRand 100 1 1 tornAccepted.stopped.disk).isOk = true := by
    decide +kernel
  have hrunning₂ : tornRegistered.Running 1 := running_called (running_started hload₂) _ _ _
  have hrunning₂' : tornAccepted.Running 1 := running_called hrunning₂ _ _ _
  have hrunning₃ : tornAgain.Running 1 := running_called (running_started hload₃) _ _ _
  have hrestart : Step plainEnv 100 tornCrashed (.start zeroRand 1 1)
      (tornCrashed.started plainEnv 100 zeroRand 1) :=
    step_started zeroRand rfl (UInt64.le_refl _) hload₂
  have hregister : Step plainEnv 100 (tornCrashed.started plainEnv 100 zeroRand 1)
      (.call (.register sampleReg) zeroRand 1) tornRegistered :=
    step_called (running_started hload₂) _ _ _ (UInt64.le_refl _)
  have haccept : Step plainEnv 100 tornRegistered (.call tornToken zeroRand 1) tornAccepted :=
    step_called hrunning₂ _ _ _ (UInt64.le_refl _)
  have hstop : Step plainEnv 100 tornAccepted (.callCrash .gcExpired zeroRand 1)
      tornAccepted.stopped := step_stopped hrunning₂' _ _
  have hthird : Step plainEnv 100 tornAccepted.stopped (.start zeroRand 1 1)
      (tornAccepted.stopped.started plainEnv 100 zeroRand 1) :=
    step_started zeroRand rfl (hrunning₂'.2 ▸ UInt64.le_refl _) hload₃
  have hagain : Step plainEnv 100 (tornAccepted.stopped.started plainEnv 100 zeroRand 1)
      (.call (.register sampleReg) zeroRand 1) tornAgain :=
    step_called (running_started hload₃) _ _ _ (UInt64.le_refl _)
  have hreplay : Step plainEnv 100 tornAgain (.call tornToken zeroRand 1)
      (tornAgain.called plainEnv 100 zeroRand 1 tornToken) :=
    step_called hrunning₃ _ _ _ (UInt64.le_refl _)
  -- nothing expires on the way: the entry is fresh, then unreadable, then absent
  have hfresh : ¬ IdleExpired plainEnv 100 tornAccepted
      (.callCrash .gcExpired zeroRand 1) sampleReg.key :=
    not_idleExpired_of_running (by decide +kernel)
  have hunreadable : ¬ IdleExpired plainEnv 100 tornAccepted.stopped (.start zeroRand 1 1)
      sampleReg.key :=
    not_idleExpired_of_unreadable zeroRand.key rfl (by decide +kernel) (by decide +kernel)
      (by decide +kernel)
  have habsent : ¬ IdleExpired plainEnv 100 (tornAccepted.stopped.started plainEnv 100 zeroRand 1)
      (.call (.register sampleReg) zeroRand 1) sampleReg.key :=
    not_idleExpired_of_running (by decide +kernel)
  have hrun : Reach (Step plainEnv 100)
      (fun s ev => True ∧ ¬ IdleExpired plainEnv 100 s ev sampleReg.key) tornAccepted tornAgain :=
    ((Reach.refl.snoc hstop ⟨trivial, hfresh⟩).snoc hthird ⟨trivial, hunreadable⟩).snoc
      hagain ⟨trivial, habsent⟩
  have hreach : Reach (Step plainEnv 100) (fun _ _ => True) (Sys.fresh 1) tornRegistered :=
    (((Reach.refl.snoc step_sampleFirst trivial).snoc step_tornCrashed trivial).snoc
      hrestart trivial).snoc hregister trivial
  have hacc₁ : AcceptedAt plainEnv tornRegistered (.call tornToken zeroRand 1) sampleReg.key 1 :=
    acceptedAt_of_eval _ _ zeroRand 1 sampleReg.key 1 (.replicate _ 7) (by decide +kernel)
  have hacc₂ : AcceptedAt plainEnv tornAgain (.call tornToken zeroRand 1) sampleReg.key 1 :=
    acceptedAt_of_eval _ _ zeroRand 1 sampleReg.key 1 (.replicate _ 7) (by decide +kernel)
  have hlt : (1 : UInt32) < 1 := hsafe hreach haccept trivial hacc₁ hrun ⟨_, hreplay⟩ hacc₂
  exact absurd hlt (by decide)

end Pizzini.Relay
