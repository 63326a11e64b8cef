import Pizzini.Relay.ChainValidatorCrash

/-!
# The chain-validator store when the file system fails

`register` and `validate` set the entry in memory first and append it to the
journal then. If the append fails they return the error, and the entry stays:
the store in memory is ahead of its files, and later calls answer from memory.
A write that was cut short also stays in the journal, where it hides every
record behind it.

So an acknowledgement may be lost with a restart. A registration that failed is
`AlreadyRegistered` when it is repeated (`failed_registration_acknowledged`).
An acknowledgement is durable in every run in which no key whose last append
failed is registered again, and nothing is appended to a journal that ends in a
torn record (`acknowledged_durable`).

The runs are those of `ChainValidatorCrash`, with the calls that return an I/O
error. What such a call leaves on disk is what a crash at the same place would
leave.
-/

namespace Pizzini.Relay

open Wire MonotoneLog Runs

/-! ## Failing calls -/

/-- The operation of a call that fails. -/
inductive FaultAt where
  /-- open, write or sync the journal -/
  | append
  /-- `write_snapshot` -/
  | snapshot
  /-- `truncate_journal` -/
  | truncate
  deriving DecidableEq, Repr

/-- The writes of a call append a record. -/
def appends : List DiskOp → Bool
  | .appendJournal _ :: _ => true
  | _ => false

/-- They compact the store. -/
def compacts (ops : List DiskOp) : Bool := decide (DiskOp.truncateJournal ∈ ops)

/-- `FailsIn fault ops d d'`: of the writes `ops` the one at `fault` fails, and
leaves `d'`. An append may have written any part of its bytes, or all of them.
`write_atomic` can only fail before its rename. -/
inductive FailsIn : FaultAt → List DiskOp → Disk → Disk → Prop where
  | append {framed : Bytes} {ops : List DiskOp} {d d' : Disk}
      (h : CrashIn [.appendJournal framed] d d') : FailsIn .append (.appendJournal framed :: ops) d d'
  | snapshot {pre : List DiskOp} {bytes : Bytes} {d : Disk} :
      FailsIn .snapshot (pre ++ [.writeSnapshot bytes, .truncateJournal]) d (runOps pre d)
  | truncate {pre : List DiskOp} {bytes : Bytes} {d d' : Disk}
      (h : CrashIn [.truncateJournal] (runOps (pre ++ [.writeSnapshot bytes]) d) d') :
      FailsIn .truncate (pre ++ [.writeSnapshot bytes, .truncateJournal]) d d'

/-- The store behind a failing call: `after` is the store behind the whole one.
The map has changed; `journal_len` counts the record if it was appended, and a
compaction has not reset it. -/
def failedStore (store after : ChainValidatorStore) (ops : List DiskOp) :
    FaultAt → ChainValidatorStore
  | .append => { after with journalLen := store.journalLen }
  | .snapshot => { after with journalLen := store.journalLen + (appends ops).toNat }
  | .truncate => { after with journalLen := store.journalLen + (appends ops).toNat }

/-! ## The system -/

/-- The key a request is about. -/
def Request.key? : Request → Option ChainKey
  | .register reg => some reg.key
  | .validate peerId chainId _ _ => some (peerId, chainId)
  | .gcExpired => none

/-- The system of `ChainValidatorCrash`. The other fields are ghosts. -/
structure FaultSys where
  sys : Sys
  /-- the keys whose last append failed -/
  unsaved : List ChainKey
  /-- the journal ciphertexts made so far -/
  sealedRecords : List Bytes
  /-- the registrations that got past their checks -/
  registered : List ChainRegistration

/-- A directory no process has run in. -/
def FaultSys.fresh (clock : UInt64) : FaultSys := ⟨Sys.fresh clock, [], [], []⟩

/-- What can happen. -/
inductive FaultEvent where
  | done (ev : Event)
  /-- a request returns an I/O error -/
  | failed (req : Request) (rand : Rand) (now : UInt64) (fault : FaultAt)

/-- The request of an event. -/
def FaultEvent.request : FaultEvent → Option (Request × Rand × UInt64)
  | .done (.call req rand now) => some (req, rand, now)
  | .done (.callCrash req rand now) => some (req, rand, now)
  | .done (.start _ _ _) => none
  | .done (.startCrash _ _ _) => none
  | .failed req rand now _ => some (req, rand, now)

variable (env : ChainEnv) (maxAge : UInt64)

namespace FaultSys

/-- The writes an event's request leads to. -/
def opsOf (s : FaultSys) (e : FaultEvent) : List DiskOp :=
  match s.sys.proc, e.request with
  | some store, some (req, rand, now) => (perform env maxAge rand now store req).2
  | _, _ => []

/-- Ghost: the keys whose last append failed. -/
def unsavedAfter (s : FaultSys) (e : FaultEvent) : List ChainKey :=
  let key := (e.request.bind fun r => r.1.key?)
  let others := if appends (s.opsOf env maxAge e) then s.unsaved.filter fun k => some k ≠ key
    else s.unsaved
  match e with
  | .done (.call _ _ _) => if compacts (s.opsOf env maxAge e) then [] else others
  | .done _ => []
  | .failed _ _ _ .append => key.toList ++ s.unsaved
  | .failed _ _ _ .snapshot => others
  | .failed _ _ _ .truncate => []

/-- Ghost: the ciphertexts among the writes. -/
def sealedBy (s : FaultSys) (e : FaultEvent) : List Bytes :=
  (s.opsOf env maxAge e).filterMap fun op =>
    match op with
    | .appendJournal framed => (unframe framed).map Prod.fst
    | _ => none

/-- Ghost: the registration, if it gets past its checks. -/
def registeredBy (s : FaultSys) (e : FaultEvent) : List ChainRegistration :=
  match e.request with
  | some (.register reg, _, _) => if appends (s.opsOf env maxAge e) then [reg] else []
  | _ => []

/-- The state after an event that takes the system to `sys`. -/
def after (s : FaultSys) (e : FaultEvent) (sys : Sys) : FaultSys where
  sys := sys
  unsaved := s.unsavedAfter env maxAge e
  sealedRecords := s.sealedRecords ++ s.sealedBy env maxAge e
  registered := s.registered ++ s.registeredBy env maxAge e

end FaultSys

inductive FaultStep : FaultSys → FaultEvent → FaultSys → Prop where
  | done {s : FaultSys} {ev : Event} {sys : Sys} (hstep : Step env maxAge s.sys ev sys) :
      FaultStep s (.done ev) (s.after env maxAge (.done ev) sys)
  | failed {s : FaultSys} {store : ChainValidatorStore} {req : Request} {rand : Rand}
      {now : UInt64} {fault : FaultAt} {disk' : Disk} (hproc : s.sys.proc = some store)
      (hclock : s.sys.clock ≤ now)
      (hfails : FailsIn fault (perform env maxAge rand now store req).2 s.sys.disk disk') :
      FaultStep s (.failed req rand now fault)
        (s.after env maxAge (.failed req rand now fault)
          ⟨disk', some (failedStore store (perform env maxAge rand now store req).1
            (perform env maxAge rand now store req).2 fault), now⟩)

/-! ## Acknowledgements -/

/-- In this event `register` returns `Registered` or `AlreadyRegistered`, or
`validate` returns `Accepted`, for `k`. -/
inductive Acknowledges (store : ChainValidatorStore) (k : ChainKey) : FaultEvent → Prop where
  | registered {reg : ChainRegistration} {rand : Rand} {now : UInt64} (hkey : reg.key = k)
      (hresult : (register env rand now store reg).result = .ok .registered) :
      Acknowledges store k (.done (.call (.register reg) rand now))
  | alreadyRegistered {reg : ChainRegistration} {rand : Rand} {now : UInt64} (hkey : reg.key = k)
      (hresult : (register env rand now store reg).result = .ok .alreadyRegistered) :
      Acknowledges store k (.done (.call (.register reg) rand now))
  | accepted {index : UInt32} {value : ChainValue} {rand : Rand} {now : UInt64}
      (hresult : (validate env rand now store k.1 k.2 index value).result = .ok .accepted) :
      Acknowledges store k (.done (.call (.validate k.1 k.2 index value) rand now))

/-- A restart before the entry in memory has idled for `max_age` recovers the
entry, with the same root and length, and a cursor that has not moved back. -/
def Durable (s : Sys) (k : ChainKey) : Prop :=
  ∃ store top, s.proc = some store ∧ store.map.lookup k = some top ∧
    ∀ rand nowPurge nowReplay, s.clock ≤ nowPurge → nowPurge ≤ nowReplay →
      saturatingSub nowReplay maxAge < top.lastUsedUnix →
        ∃ store' ops state, loadOrCreate env rand maxAge nowPurge nowReplay s.disk =
            .ok (store', ops) ∧
          store'.map.lookup k = some state ∧ state.root = top.root ∧
          state.length = top.length ∧ top.lastIndex ≤ state.lastIndex

/-! ## When acknowledgements are durable -/

/-- The request is a registration of an entry the store has. -/
def Request.repeats (store : ChainValidatorStore) : Request → Prop
  | .register reg => ∃ state, store.map.lookup reg.key = some state ∧ state.root = reg.root ∧
      state.length = reg.length
  | _ => False

/-- No key whose last append failed is registered again. A request that gets
past its checks finds a journal of whole records, or compacts the store and
does not fail. -/
def Careful (s : FaultSys) (e : FaultEvent) : Prop :=
  ∀ store req rand now, s.sys.proc = some store → e.request = some (req, rand, now) →
    (e = .done (.call req rand now) → req.repeats store → ∀ k ∈ req.key?, k ∉ s.unsaved) ∧
    ∀ k state, Change env now store req k state → WholeFrames s.sys.disk.journalBytes ∨
      e = .done (.call req rand now) ∧ JOURNAL_COMPACT_THRESHOLD ≤ store.journalLen + 1

/-! ## The files behind the store -/

variable {env maxAge}

theorem runOps_append (ops ops' : List DiskOp) (disk : Disk) :
    runOps (ops ++ ops') disk = runOps ops' (runOps ops disk) := by
  rw [runOps, List.foldl_append]
  rfl

/-- A crash after the last write. -/
theorem crashIn_whole (ops : List DiskOp) (disk : Disk) : CrashIn ops disk (runOps ops disk) := by
  induction ops generalizing disk with
  | nil => exact .stop
  | cons op ops ih => exact .next (ih (op.run disk))

/-- Only `writeKey` touches the key file. -/
theorem runOps_keyFile {ops : List DiskOp} (h : ∀ op ∈ ops, ∀ key, op ≠ .writeKey key)
    (disk : Disk) : (runOps ops disk).keyFile = disk.keyFile := by
  induction ops generalizing disk with
  | nil => rfl
  | cons op ops ih =>
    have hrest := ih (fun op hop => h op (List.mem_cons_of_mem _ hop)) (op.run disk)
    refine hrest.trans ?_
    cases op with
    | writeKey key => exact absurd rfl (h _ List.mem_cons_self key)
    | writeSnapshot _ => rfl
    | appendJournal _ => rfl
    | truncateJournal => rfl
    | createJournal => rfl

/-- The parts of a startup that succeeds. -/
theorem loadOrCreate_shape {rand : Rand} {nowPurge nowReplay : UInt64} {disk : Disk}
    {store : ChainValidatorStore} {ops : List DiskOp}
    (hload : loadOrCreate env rand maxAge nowPurge nowReplay disk = .ok (store, ops)) :
    loadOrCreateKey "chain-validator" disk.keyFile rand.key = .ok store.key ∧
      (∃ map, readSnapshot env store.key (saturatingSub nowPurge maxAge) disk.snapshot = .ok map ∧
        store.map = (replayJournal env store.key (saturatingSub nowReplay maxAge)
          disk.journalBytes map).1) ∧
      ∃ rest, ops = (if disk.keyFile.isNone then [.writeKey store.key] else []) ++ rest ∧
        ∀ op ∈ rest, op = .createJournal ∨ op ∈ (compact env rand store).2 := by
  unfold loadOrCreate at hload
  cases hkey : loadOrCreateKey "chain-validator" disk.keyFile rand.key with
  | error e =>
    rw [hkey] at hload
    cases hload
  | ok key =>
    rw [hkey] at hload
    cases hsnap : readSnapshot env key (saturatingSub nowPurge maxAge) disk.snapshot with
    | error e =>
      simp only [bind, Except.bind, hsnap] at hload
      cases hload
    | ok map =>
      simp only [bind, Except.bind, hsnap] at hload
      have hcreate : ∀ op ∈ (if disk.journal.isNone then [DiskOp.createJournal] else []),
          op = .createJournal := by
        intro op hop
        split at hop
        · exact List.mem_singleton.mp hop
        · cases hop
      split at hload
      · cases hload
        refine ⟨rfl, ⟨map, hsnap, rfl⟩, _, List.append_assoc _ _ _, fun op hop => ?_⟩
        exact (List.mem_append.mp hop).imp (hcreate op) id
      · cases hload
        exact ⟨rfl, ⟨map, hsnap, rfl⟩, _, rfl, fun op hop => .inl (hcreate op hop)⟩

/-- Startup leaves a key file, with the key of the store. -/
theorem loadOrCreate_keyFile {rand : Rand} {nowPurge nowReplay : UInt64} {disk : Disk}
    {store : ChainValidatorStore} {ops : List DiskOp}
    (hload : loadOrCreate env rand maxAge nowPurge nowReplay disk = .ok (store, ops)) :
    (runOps ops disk).keyFile = some store.key.1 := by
  obtain ⟨hkey, _, rest, rfl, hrest⟩ := loadOrCreate_shape hload
  -- only the first write is of the key file
  rw [runOps_append, runOps_keyFile]
  · cases hfile : disk.keyFile with
    | none => rfl
    | some bytes =>
      rw [hfile, loadOrCreateKey] at hkey
      split at hkey
      · rw [← Except.ok.inj hkey]
        exact hfile
      · cases hkey
  · rintro op hop key rfl
    obtain heq | hin := hrest _ hop
    · cases heq
    · cases List.mem_cons.mp hin with
      | inl heq => cases heq
      | inr hin => cases List.mem_singleton.mp hin

/-- Every entry is of a 33-byte peer and was used no later than `clock`. -/
def Fits (clock : UInt64) (map : Dict ChainKey ChainState) : Prop :=
  ∀ k state, map.lookup k = some state → k.1.length = 33 ∧ state.lastUsedUnix ≤ clock

/-- The map `saved` that the files stand for, behind the map in memory: all its
entries are earlier versions, and up to date if their key is not in `unsaved`. -/
structure Lags (maxAge clock : UInt64) (saved map : Dict ChainKey ChainState)
    (unsaved : List ChainKey) : Prop where
  fits : Fits clock map
  behind : ∀ k e, saved.lookup k = some e →
    ∃ top, map.lookup k = some top ∧ Below rank stamp e top
  current : ∀ k top, map.lookup k = some top → k ∉ unsaved → cut clock maxAge < stamp top →
    saved.lookup k = some top

namespace Lags

variable {clock now : UInt64} {saved map : Dict ChainKey ChainState} {unsaved : List ChainKey}

theorem self (hfits : Fits clock map) (unsaved : List ChainKey) :
    Lags maxAge clock map map unsaved where
  fits := hfits
  behind _ e he := ⟨e, he, .inl rfl⟩
  current _ _ htop _ _ := htop

theorem mono (h : Lags maxAge clock saved map unsaved) (hle : clock ≤ now) :
    Lags maxAge now saved map unsaved where
  fits k state hk := ⟨(h.fits k state hk).1, UInt64.le_trans (h.fits k state hk).2 hle⟩
  behind := h.behind
  current k top htop hk hlive := h.current k top htop hk (Nat.lt_of_le_of_lt (cut_mono hle) hlive)

/-- Both maps lose what has expired. -/
theorem retain (h : Lags maxAge now saved map unsaved) :
    Lags maxAge now (saved.retain fun _ e => decide (cut now maxAge < stamp e))
      (map.retain fun _ e => decide (cut now maxAge < stamp e)) unsaved where
  fits := by
    intro k state hk
    rw [AList.lookup_retain, Option.filter_eq_some_iff] at hk
    exact h.fits k state hk.1
  behind := by
    intro k e he
    rw [AList.lookup_retain, Option.filter_eq_some_iff, decide_eq_true_iff] at he
    obtain ⟨top, htop, hbelow⟩ := h.behind k e he.1
    refine ⟨top, ?_, hbelow⟩
    rw [AList.lookup_retain, Option.filter_eq_some_iff, decide_eq_true_iff]
    exact ⟨htop, Nat.lt_of_lt_of_le he.2 hbelow.stamp_le⟩
  current := by
    intro k top htop hk hlive
    rw [AList.lookup_retain, Option.filter_eq_some_iff] at htop ⊢
    exact ⟨h.current k top htop.1 hk hlive, decide_eq_true hlive⟩

section Change

variable {k : ChainKey} {state : ChainState}

theorem insert_fits (h : Lags maxAge now saved map unsaved) (hk : k.1.length = 33)
    (hused : state.lastUsedUnix = now) : Fits now (map.insert k state) := by
  intro k' state' hk'
  rw [AList.lookup_insert_of_eq_or_ne] at hk'
  split at hk'
  · next heq =>
    cases hk'
    exact ⟨heq ▸ hk, hused ▸ UInt64.le_refl _⟩
  · exact h.fits k' state' hk'

/-- The new entry reaches the files. -/
theorem insert (h : Lags maxAge now saved map unsaved) (hk : k.1.length = 33)
    (hused : state.lastUsedUnix = now) :
    Lags maxAge now (saved.insert k state) (map.insert k state)
      (unsaved.filter fun k' => some k' ≠ some k) where
  fits := h.insert_fits hk hused
  behind := by
    intro k' e he
    rw [AList.lookup_insert_of_eq_or_ne] at he ⊢
    split at he
    · next heq =>
      rw [if_pos heq]
      cases he
      exact ⟨state, rfl, .inl rfl⟩
    · next hne =>
      rw [if_neg hne]
      exact h.behind k' e he
  current := by
    intro k' top htop hsaved hlive
    rw [AList.lookup_insert_of_eq_or_ne] at htop ⊢
    split at htop
    · next heq =>
      rw [if_pos heq]
      exact htop
    · next hne =>
      rw [if_neg hne]
      refine h.current k' top htop (fun hin => hsaved ?_) hlive
      refine List.mem_filter.mpr ⟨hin, decide_eq_true fun hsome => hne ?_⟩
      exact (Option.some.inj hsome)

/-- It does not. -/
theorem ahead (h : Lags maxAge now saved map unsaved) (hk : k.1.length = 33)
    (hused : state.lastUsedUnix = now)
    (hsup : ∀ old, map.lookup k = some old → rank old < rank state) :
    Lags maxAge now saved (map.insert k state) (k :: unsaved) where
  fits := h.insert_fits hk hused
  behind := by
    intro k' e he
    obtain ⟨top, htop, hbelow⟩ := h.behind k' e he
    rw [AList.lookup_insert_of_eq_or_ne]
    split
    · next heq =>
      subst heq
      refine ⟨state, rfl, hbelow.trans (.inr ⟨hsup top htop, ?_⟩)⟩
      have hle := (h.fits k' top htop).2
      rw [← hused, UInt64.le_iff_toNat_le] at hle
      exact hle
    · exact ⟨top, htop, hbelow⟩
  current := by
    intro k' top htop hsaved hlive
    rw [List.mem_cons, not_or] at hsaved
    rw [AList.lookup_insert_ne hsaved.1] at htop
    exact h.current k' top htop hsaved.2 hlive

end Change

end Lags

namespace Stands

variable {clock : UInt64} {key : Key} {disk : Disk} {saved : Dict ChainKey ChainState}
  {torn : Bytes} {store : ChainValidatorStore}

/-- A whole compaction, whatever the files held. -/
theorem compacted (store : ChainValidatorStore) (hfile : disk.keyFile = some store.key.1) (hfits : Fits clock store.map)
    (rand : Rand) :
    Stands env maxAge clock store.key (runOps (Relay.compact env rand store).2 disk) store.map
      [] := by
  refine ⟨store.map, [], ⟨hfile, .inr ⟨rand.snapshotNonce, rfl⟩, ⟨[], rfl, .nil⟩, rfl⟩,
    Represents.truncate fun _ => rfl, ?_⟩
  rintro k state (hlook | hlog)
  · exact hfits k state hlook
  · cases hlog

/-- A new snapshot over files that are behind it. -/
theorem snapshotAhead (h : Stands env maxAge clock store.key disk saved torn)
    (hfits : Fits clock store.map)
    (hbehind : ∀ k e, saved.lookup k = some e →
      ∃ top, store.map.lookup k = some top ∧ Below rank stamp e top) (rand : Rand) :
    Stands env maxAge clock store.key ((Relay.writeSnapshot env rand store).run disk) store.map
      torn := by
  obtain ⟨base, log, hholds, hrep, hwf⟩ := h.files
  refine ⟨store.map, log, hholds.writeSnapshot rand rfl, ⟨fun hk => .inl hk, ?_⟩, ?_⟩
  · rintro k e (hlook | hlog)
    · exact .inr ⟨e, hlook, .inl rfl⟩
    · -- a record of the log is expired, or behind what the files stood for
      obtain hdead | ⟨mid, hmid, hbelow⟩ := hrep.below (.inr hlog)
      · exact .inl hdead
      · obtain ⟨top, htop, hbelow'⟩ := hbehind k mid hmid
        exact .inr ⟨top, htop, hbelow.trans hbelow'⟩
  · rintro k state (hlook | hlog)
    · exact hfits k state hlook
    · exact hwf k state (.inr hlog)

/-- A journal of whole records has no torn end. -/
theorem torn_eq_nil (h : Stands env maxAge clock key disk saved torn)
    (hwhole : WholeFrames disk.journalBytes) : torn = [] := by
  obtain ⟨base, log, hholds, _⟩ := h.files
  obtain ⟨cts, hbytes, hread⟩ := hholds.journal
  rw [hbytes] at hwhole
  refine hwhole.tail_eq_nil (fun ct hct => ?_) hholds.tail
  clear hbytes hwhole
  generalize log.map recordOf = records at hread
  induction hread with
  | nil => cases hct
  | cons hct₀ _ ih =>
    cases List.mem_cons.mp hct with
    | inl heq =>
      subst heq
      exact ⟨hct₀.pos, hct₀.lt⟩
    | inr hin => exact ih hin

/-- What a startup leaves behind stands for the map it has read. -/
theorem ofLoad {clock nowPurge nowReplay : UInt64} {disk : Disk}
    {map : Dict ChainKey ChainState} (henv : env.Lawful) (rand : Rand)
    (h : Startable env maxAge clock disk map torn) (hpurge : clock ≤ nowPurge)
    (hreplay : nowPurge ≤ nowReplay) {ops : List DiskOp}
    (hload : loadOrCreate env rand maxAge nowPurge nowReplay disk = .ok (store, ops)) :
    ∃ torn', Stands env maxAge nowReplay store.key (runOps ops disk) store.map torn' := by
  obtain ⟨store', ops', hload', hspec⟩ := h.loadOrCreate_spec henv rand hpurge hreplay
  rw [hload] at hload'
  cases hload'
  have hfile := loadOrCreate_keyFile hload
  obtain ⟨torn', hstartable⟩ := hspec.crash _ (crashIn_whole ops disk)
  cases hstartable with
  | blank hblank _ =>
    rw [hblank.keyFile] at hfile
    cases hfile
  | @stands key _ hstands =>
    obtain ⟨base, log, hholds, hrest⟩ := hstands.files
    have hkey : key = store.key :=
      Subtype.ext (Option.some.inj (hholds.keyFile.symm.trans hfile))
    subst hkey
    exact ⟨torn', base, log, hholds, hrest⟩

end Stands

/-! ## Where a call can fail -/

section Fails

variable {fault : FaultAt} {d d' : Disk} {framed bytes : Bytes}

theorem FailsIn.not_nil (h : FailsIn fault [] d d') : False := by
  generalize hops : ([] : List DiskOp) = ops at h
  cases h with
  | append => cases hops
  | snapshot => simp at hops
  | truncate => simp at hops

/-- A call that appends only. -/
theorem FailsIn.of_append (h : FailsIn fault [.appendJournal framed] d d') :
    fault = .append ∧ CrashIn [.appendJournal framed] d d' := by
  generalize hops : [DiskOp.appendJournal framed] = ops at h
  cases h with
  | append h =>
    cases hops
    exact ⟨rfl, h⟩
  | snapshot =>
    have hlen := congrArg List.length hops
    simp at hlen
  | truncate =>
    have hlen := congrArg List.length hops
    simp at hlen

/-- A call that compacts in the end. -/
theorem FailsIn.of_compact (pre : List DiskOp)
    (h : FailsIn fault (pre ++ [.writeSnapshot bytes, .truncateJournal]) d d') :
    (fault = .append ∧ ∃ framed rest, pre ++ [.writeSnapshot bytes, .truncateJournal] =
        .appendJournal framed :: rest ∧ CrashIn [.appendJournal framed] d d') ∨
      (fault = .snapshot ∧ d' = runOps pre d) ∨
      fault = .truncate ∧
        CrashIn [.truncateJournal] ((DiskOp.writeSnapshot bytes).run (runOps pre d)) d' := by
  generalize hops : pre ++ [.writeSnapshot bytes, .truncateJournal] = ops at h
  cases h with
  | append h => exact .inl ⟨rfl, _, _, rfl, h⟩
  | snapshot =>
    obtain ⟨rfl, _⟩ := List.append_inj' hops rfl
    exact .inr (.inl ⟨rfl, rfl⟩)
  | truncate h =>
    obtain ⟨rfl, hlast⟩ := List.append_inj' hops rfl
    cases hlast
    rw [runOps_append] at h
    exact .inr (.inr ⟨rfl, h⟩)

/-- A crash leaves what some failure leaves, or comes after the last write. -/
theorem CrashIn.fails_or_whole {rest : List DiskOp}
    (hrest : rest = [] ∨ ∃ bytes, rest = [.writeSnapshot bytes, .truncateJournal])
    (h : CrashIn (.appendJournal framed :: rest) d d') :
    (∃ fault, FailsIn fault (.appendJournal framed :: rest) d d') ∨
      d' = runOps (.appendJournal framed :: rest) d := by
  obtain rfl | hnext | ⟨framed', n, hop, hn, rfl⟩ := h.cons_cases
  · exact .inl ⟨.append, .append .stop⟩
  · obtain rfl | ⟨bytes, rfl⟩ := hrest
    · exact .inr hnext.nil_eq
    · obtain rfl | hnext | ⟨_, _, hop, _⟩ := hnext.cons_cases
      · exact .inl ⟨.snapshot, @FailsIn.snapshot [.appendJournal framed] _ _⟩
      · obtain rfl | hnext | ⟨_, _, hop, _⟩ := hnext.cons_cases
        · exact .inl ⟨.truncate, @FailsIn.truncate [.appendJournal framed] _ _ _ .stop⟩
        · exact .inr hnext.nil_eq
        · cases hop
      · cases hop
  · cases hop
    exact .inl ⟨.append, .append (.torn hn)⟩

theorem CrashIn.fails_or_whole_compact
    (h : CrashIn [.writeSnapshot bytes, .truncateJournal] d d') :
    (∃ fault, FailsIn fault [.writeSnapshot bytes, .truncateJournal] d d') ∨
      d' = runOps [.writeSnapshot bytes, .truncateJournal] d := by
  obtain rfl | hnext | ⟨_, _, hop, _⟩ := h.cons_cases
  · exact .inl ⟨.snapshot, @FailsIn.snapshot [] _ _⟩
  · obtain rfl | hnext | ⟨_, _, hop, _⟩ := hnext.cons_cases
    · exact .inl ⟨.truncate, @FailsIn.truncate [] _ _ _ .stop⟩
    · exact .inr hnext.nil_eq
    · cases hop
  · cases hop

end Fails

/-! ## One call -/

/-- The writes of `append_journal`: the record, then a compaction if it is due. -/
theorem appendJournal_shape (henv : env.Lawful) (rand : Rand) (store : ChainValidatorStore)
    {k : ChainKey} (hk : k.1.length = 33) (state : ChainState) :
    let framed := frame (journalCiphertext env rand store.key k.1 k.2.1 state)
    let counted := { store with journalLen := store.journalLen + 1 }
    (JOURNAL_COMPACT_THRESHOLD ≤ store.journalLen + 1 ∧
        appendJournal env rand store k.1 k.2.1 state =
          ⟨(compact env rand counted).1,
            .appendJournal framed :: (compact env rand counted).2, .ok ()⟩) ∨
      (¬ JOURNAL_COMPACT_THRESHOLD ≤ store.journalLen + 1 ∧
        appendJournal env rand store k.1 k.2.1 state =
          ⟨counted, [.appendJournal framed], .ok ()⟩) := by
  have hsize : (journalCiphertext env rand store.key k.1 k.2.1 state).length < 2 ^ 32 :=
    (readable_journalCiphertext henv rand store.key hk state).lt
  simp only [appendJournal, if_pos hsize]
  split
  next hdue => exact .inl ⟨hdue, rfl⟩
  next hdue => exact .inr ⟨hdue, rfl⟩

/-- What a process and its files are like: the files stand for a map that lags
behind the one in memory. -/
def Trails (env : ChainEnv) (maxAge now : UInt64) (key : Key) (disk : Disk)
    (map : Dict ChainKey ChainState) (unsaved : List ChainKey) : Prop :=
  ∃ saved torn, Stands env maxAge now key disk saved torn ∧ Lags maxAge now saved map unsaved

section OneCall

variable {now : UInt64} {disk disk' : Disk} {saved : Dict ChainKey ChainState}
  {store : ChainValidatorStore} {unsaved : List ChainKey} {k : ChainKey} {state : ChainState}
  {torn : Bytes}

/-- The record is appended. -/
theorem appended (henv : env.Lawful) (rand : Rand)
    (hstands : Stands env maxAge now store.key disk saved [])
    (hlags : Lags maxAge now saved store.map unsaved) (hk : k.1.length = 33)
    (hused : state.lastUsedUnix = now)
    (hsup : ∀ old, store.map.lookup k = some old → rank old < rank state) :
    Stands env maxAge now store.key ((DiskOp.appendJournal
        (frame (journalCiphertext env rand store.key k.1 k.2.1 state))).run disk)
        (saved.insert k state) [] ∧
      Lags maxAge now (saved.insert k state) (store.map.insert k state)
        (unsaved.filter fun k' => some k' ≠ some k) := by
  refine ⟨hstands.append henv rand hk hused fun old hold => ?_, hlags.insert hk hused⟩
  obtain ⟨top, htop, hbelow⟩ := hlags.behind k old hold
  exact Nat.lt_of_le_of_lt hbelow.rank_le (hsup top htop)

/-- The append fails: nothing, a part or all of the record is in the journal. -/
theorem append_fails (henv : env.Lawful) (rand : Rand)
    (hstands : Stands env maxAge now store.key disk saved [])
    (hlags : Lags maxAge now saved store.map unsaved) (hk : k.1.length = 33)
    (hused : state.lastUsedUnix = now)
    (hsup : ∀ old, store.map.lookup k = some old → rank old < rank state)
    (hcrash : CrashIn [.appendJournal
      (frame (journalCiphertext env rand store.key k.1 k.2.1 state))] disk disk') :
    Trails env maxAge now store.key disk' (store.map.insert k state) (k :: unsaved) := by
  have hahead := hlags.ahead hk hused hsup
  obtain rfl | hnext | ⟨framed, n, hop, hn, rfl⟩ := hcrash.cons_cases
  · exact ⟨saved, [], hstands, hahead⟩
  · obtain ⟨hstands', hlags'⟩ := appended henv rand hstands hlags hk hused hsup
    rw [hnext.nil_eq]
    refine ⟨_, [], hstands', hlags'.fits, hlags'.behind, fun k' top htop hk' hlive => ?_⟩
    refine hlags'.current k' top htop (fun hin => hk' ?_) hlive
    exact List.mem_cons_of_mem _ (List.mem_filter.mp hin).1
  · cases hop
    obtain ⟨torn', htorn⟩ := hstands.append_torn henv rand hk hn
    exact ⟨saved, torn', htorn, hahead⟩

/-- The truncation fails, after the snapshot was written. -/
theorem truncate_fails (store : ChainValidatorStore)
    (hstands : Stands env maxAge now store.key disk saved torn)
    (hlags : Lags maxAge now saved store.map unsaved) (rand : Rand)
    (hcrash : CrashIn [.truncateJournal] ((writeSnapshot env rand store).run disk) disk') :
    Trails env maxAge now store.key disk' store.map [] := by
  obtain rfl | hnext | ⟨_, _, hop, _⟩ := hcrash.cons_cases
  · exact ⟨store.map, torn, hstands.snapshotAhead hlags.fits hlags.behind rand,
      .self hlags.fits []⟩
  · rw [hnext.nil_eq]
    obtain ⟨base, log, hholds, _⟩ := hstands.files
    exact ⟨store.map, [], Stands.compacted store hholds.keyFile hlags.fits rand, .self hlags.fits []⟩
  · cases hop

end OneCall

/-! ## The invariant -/

/-- The files of a running process trail its map; those of none can be started
from. -/
def FaultInv (env : ChainEnv) (maxAge : UInt64) (s : FaultSys) : Prop :=
  match s.sys.proc with
  | some store => Trails env maxAge s.sys.clock store.key s.sys.disk store.map s.unsaved
  | none => ∃ map torn, Startable env maxAge s.sys.clock s.sys.disk map torn

/-- The key of a set entry is that of a 33-byte peer. -/
theorem Change.key_length {clock now : UInt64} {store : ChainValidatorStore} {req : Request}
    {k : ChainKey} {state : ChainState} (h : Change env now store req k state)
    (hfits : Fits clock store.map) : k.1.length = 33 := by
  obtain ⟨hlen | ⟨old, hold⟩, _⟩ := h.supersedes
  · exact hlen
  · exact (hfits k old hold).1

theorem Change.key? {now : UInt64} {store : ChainValidatorStore} {req : Request} {k : ChainKey}
    {state : ChainState} (h : Change env now store req k state) : req.key? = some k := by
  cases h with
  | register => rfl
  | validate => rfl

/-- The request of an event, and the writes it leads to. -/
theorem opsOf_eq {s : FaultSys} {store : ChainValidatorStore} {e : FaultEvent} {req : Request}
    {rand : Rand} {now : UInt64} (hproc : s.sys.proc = some store)
    (hreq : e.request = some (req, rand, now)) :
    s.opsOf env maxAge e = (perform env maxAge rand now store req).2 := by
  simp only [FaultSys.opsOf, hproc, hreq]

variable (env maxAge) in
/-- No request touches the key. -/
theorem perform_key (rand : Rand) (now : UInt64) (store : ChainValidatorStore) (req : Request) :
    (perform env maxAge rand now store req).1.key = store.key := by
  obtain hnoop | ⟨k, state, _, happend⟩ | ⟨_, hcompact⟩ :=
    perform_shape env maxAge rand now store req
  · rw [hnoop]
  · rw [happend]
    simp only [appendJournal]
    split
    · split
      · rfl
      · rfl
    · rfl
  · rw [hcompact]
    rfl

section Calls

variable {s : FaultSys} {store : ChainValidatorStore} {req : Request} {rand : Rand} {now : UInt64}

/-- A failing call leaves files that trail the map. -/
theorem trails_failed (henv : env.Lawful) (hproc : s.sys.proc = some store)
    (hclock : s.sys.clock ≤ now) (hinv : FaultInv env maxAge s) {fault : FaultAt} {disk' : Disk}
    (hwhole : ∀ k state, Change env now store req k state → WholeFrames s.sys.disk.journalBytes)
    (hfails : FailsIn fault (perform env maxAge rand now store req).2 s.sys.disk disk') :
    Trails env maxAge now store.key disk' (perform env maxAge rand now store req).1.map
      (s.unsavedAfter env maxAge (.failed req rand now fault)) := by
  simp only [FaultInv, hproc] at hinv
  obtain ⟨saved, torn, hstands₀, hlags₀⟩ := hinv
  have hstands := hstands₀.mono hclock
  have hlags := hlags₀.mono hclock
  have hops : s.opsOf env maxAge (.failed req rand now fault) =
      (perform env maxAge rand now store req).2 := opsOf_eq hproc rfl
  obtain hnoop | ⟨k, state, hchange, happend⟩ | ⟨rfl, hcompact⟩ :=
    perform_shape env maxAge rand now store req
  · rw [hnoop] at hfails
    exact hfails.not_nil.elim
  · have htorn := hstands.torn_eq_nil (hwhole k state hchange)
    subst htorn
    obtain ⟨_, hused, hsup⟩ := hchange.supersedes
    have hlen := hchange.key_length hlags.fits
    have hkey := hchange.key?
    have hset := appended henv rand hstands hlags hlen hused hsup
    obtain ⟨_, hshape⟩ | ⟨hnot, hshape⟩ := appendJournal_shape henv rand
      { store with map := store.map.insert k state } hlen state
    · rw [happend, hshape] at hfails hops ⊢
      obtain ⟨rfl, framed, rest, hsplit, hcrash⟩ | ⟨rfl, rfl⟩ | ⟨rfl, hcrash⟩ :=
        FailsIn.of_compact [.appendJournal _] hfails
      · cases hsplit
        simp only [FaultSys.unsavedAfter, FaultEvent.request, Option.bind_some, hkey]
        exact append_fails henv rand hstands hlags hlen hused hsup hcrash
      · simp only [FaultSys.unsavedAfter, FaultEvent.request, Option.bind_some, hkey, hops,
          appends, if_true]
        exact ⟨_, [], hset⟩
      · simp only [FaultSys.unsavedAfter]
        exact truncate_fails { store with
          map := store.map.insert k state
          journalLen := store.journalLen + 1 } hset.1 hset.2 rand hcrash
    · rw [happend, hshape] at hfails hops ⊢
      obtain ⟨rfl, hcrash⟩ := hfails.of_append
      simp only [FaultSys.unsavedAfter, FaultEvent.request, Option.bind_some, hkey]
      exact append_fails henv rand hstands hlags hlen hused hsup hcrash
  · rw [hcompact] at hfails hops ⊢
    have hkept := hstands.retain (UInt64.le_refl now)
    have hlags' := hlags.retain
    obtain ⟨rfl, framed, rest, hsplit, _⟩ | ⟨rfl, rfl⟩ | ⟨rfl, hcrash⟩ :=
      FailsIn.of_compact [] hfails
    · cases hsplit
    · simp only [FaultSys.unsavedAfter, hops, compact, appends]
      exact ⟨_, torn, hkept, hlags'⟩
    · simp only [FaultSys.unsavedAfter]
      exact truncate_fails { store with
        map := store.map.retain fun _ e => decide (cut now maxAge < stamp e) } hkept hlags' rand
        hcrash

/-- A call that runs to its end leaves files that trail the map. -/
theorem trails_called (henv : env.Lawful) (hproc : s.sys.proc = some store)
    (hclock : s.sys.clock ≤ now) (hinv : FaultInv env maxAge s)
    (hwhole : ∀ k state, Change env now store req k state →
      WholeFrames s.sys.disk.journalBytes ∨ JOURNAL_COMPACT_THRESHOLD ≤ store.journalLen + 1) :
    Trails env maxAge now store.key (runOps (perform env maxAge rand now store req).2 s.sys.disk)
      (perform env maxAge rand now store req).1.map
      (s.unsavedAfter env maxAge (.done (.call req rand now))) := by
  simp only [FaultInv, hproc] at hinv
  obtain ⟨saved, torn, hstands₀, hlags₀⟩ := hinv
  have hstands := hstands₀.mono hclock
  have hlags := hlags₀.mono hclock
  have hfile : s.sys.disk.keyFile = some store.key.1 := by
    obtain ⟨base, log, hholds, _⟩ := hstands.files
    exact hholds.keyFile
  have hops : s.opsOf env maxAge (.done (.call req rand now)) =
      (perform env maxAge rand now store req).2 := opsOf_eq hproc rfl
  simp only [FaultSys.unsavedAfter, hops]
  obtain hnoop | ⟨k, state, hchange, happend⟩ | ⟨rfl, hcompact⟩ :=
    perform_shape env maxAge rand now store req
  · rw [hnoop]
    exact ⟨saved, torn, hstands, hlags⟩
  · obtain ⟨_, hused, hsup⟩ := hchange.supersedes
    have hlen := hchange.key_length hlags.fits
    have hkey := hchange.key?
    simp only [FaultEvent.request, Option.bind_some, hkey]
    rw [happend]
    obtain ⟨_, hshape⟩ | ⟨hnot, hshape⟩ := appendJournal_shape henv rand
      { store with map := store.map.insert k state } hlen state
    · -- the compaction makes up for whatever the journal held
      rw [hshape]
      refine ⟨_, [], ?_, .self (hlags.insert_fits hlen hused) _⟩
      exact Stands.compacted { store with
        map := store.map.insert k state
        journalLen := store.journalLen + 1 } hfile (hlags.insert_fits hlen hused) rand
    · rw [hshape]
      have htorn := hstands.torn_eq_nil ((hwhole k state hchange).resolve_right hnot)
      subst htorn
      exact ⟨_, [], appended henv rand hstands hlags hlen hused hsup⟩
  · rw [hcompact]
    refine ⟨_, [], ?_, .self hlags.retain.fits _⟩
    exact Stands.compacted { store with
      map := store.map.retain fun _ e => decide (cut now maxAge < stamp e) } hfile
      hlags.retain.fits rand

end Calls

theorem Trails.startable {clock : UInt64} {key : Key} {disk : Disk}
    {map : Dict ChainKey ChainState} {unsaved : List ChainKey}
    (h : Trails env maxAge clock key disk map unsaved) :
    ∃ map torn, Startable env maxAge clock disk map torn := by
  obtain ⟨saved, torn, hstands, _⟩ := h
  exact ⟨saved, torn, .stands hstands⟩

/-- What a crash in a call leaves can be started from. -/
theorem startable_crashed (henv : env.Lawful) {s : FaultSys} {store : ChainValidatorStore}
    {req : Request} {rand : Rand} {now : UInt64} (hproc : s.sys.proc = some store)
    (hclock : s.sys.clock ≤ now) (hinv : FaultInv env maxAge s) {disk' : Disk}
    (hwhole : ∀ k state, Change env now store req k state → WholeFrames s.sys.disk.journalBytes)
    (hcrash : CrashIn (perform env maxAge rand now store req).2 s.sys.disk disk') :
    ∃ map torn, Startable env maxAge now disk' map torn := by
  have hdone : (∃ fault, FailsIn fault (perform env maxAge rand now store req).2 s.sys.disk
      disk') ∨ disk' = runOps (perform env maxAge rand now store req).2 s.sys.disk := by
    obtain hnoop | ⟨k, state, hchange, happend⟩ | ⟨rfl, hcompact⟩ :=
      perform_shape env maxAge rand now store req
    · rw [hnoop] at hcrash ⊢
      exact .inr hcrash.nil_eq
    · rw [happend] at hcrash ⊢
      simp only [appendJournal] at hcrash ⊢
      split at hcrash
      next hsize =>
        rw [if_pos hsize]
        split at hcrash
        next hdue =>
          rw [if_pos hdue]
          exact hcrash.fails_or_whole (.inr ⟨_, rfl⟩)
        next hdue =>
          rw [if_neg hdue]
          exact hcrash.fails_or_whole (.inl rfl)
      next hsize =>
        rw [if_neg hsize]
        exact .inr hcrash.nil_eq
    · rw [hcompact] at hcrash ⊢
      exact hcrash.fails_or_whole_compact
  obtain ⟨fault, hfails⟩ | rfl := hdone
  · exact (trails_failed henv hproc hclock hinv hwhole hfails).startable
  · exact (trails_called henv hproc hclock hinv
      fun k state hchange => .inl (hwhole k state hchange)).startable

/-- Every careful event keeps the invariant. -/
theorem FaultInv.step (henv : env.Lawful) {s s' : FaultSys} {e : FaultEvent}
    (h : FaultInv env maxAge s) (hcareful : Careful env s e)
    (hstep : FaultStep env maxAge s e s') : FaultInv env maxAge s' := by
  cases hstep with
  | done hstep =>
    cases hstep with
    | @call store req rand now hproc hclock =>
      show Trails env maxAge now (perform env maxAge rand now store req).1.key _ _ _
      rw [perform_key]
      refine trails_called henv hproc hclock h fun k state hchange => ?_
      exact ((hcareful store req rand now hproc rfl).2 k state hchange).imp id And.right
    | @callCrash store req rand now disk' hproc hclock hcrash =>
      refine startable_crashed henv hproc hclock h (fun k state hchange => ?_) hcrash
      refine ((hcareful store req rand now hproc rfl).2 k state hchange).resolve_right ?_
      rintro ⟨heq, _⟩
      cases heq
    | @start store ops rand nowPurge nowReplay hproc hclock hnow hload =>
      simp only [FaultInv, hproc] at h
      obtain ⟨map, torn, hstartable⟩ := h
      obtain ⟨torn', hstands⟩ := Stands.ofLoad henv rand hstartable hclock hnow hload
      exact ⟨store.map, torn', hstands, .self (fun k state hk => hstands.entry hk) _⟩
    | @startCrash store ops rand nowPurge nowReplay disk' hproc hclock hnow hload hcrash =>
      simp only [FaultInv, hproc] at h
      obtain ⟨map, torn, hstartable⟩ := h
      obtain ⟨store', ops', hload', hspec⟩ := hstartable.loadOrCreate_spec henv rand hclock hnow
      rw [hload] at hload'
      cases hload'
      obtain ⟨torn', hcrashed⟩ := hspec.crash disk' hcrash
      exact ⟨store.map, torn', hcrashed⟩
  | @failed store req rand now fault disk' hproc hclock hfails =>
    have htrails := trails_failed henv hproc hclock h (fun k state hchange => ?_) hfails
    · have hkey : (failedStore store (perform env maxAge rand now store req).1
          (perform env maxAge rand now store req).2 fault).key = store.key := by
        have hsame := perform_key env maxAge rand now store req
        cases fault <;> exact hsame
      have hmap : (failedStore store (perform env maxAge rand now store req).1
          (perform env maxAge rand now store req).2 fault).map =
            (perform env maxAge rand now store req).1.map := by
        cases fault <;> rfl
      show Trails env maxAge now _ disk' _ _
      rw [hkey, hmap]
      exact htrails
    · refine ((hcareful store req rand now hproc rfl).2 k state hchange).resolve_right ?_
      rintro ⟨heq, _⟩
      cases heq

/-! ## Durability -/

/-- An entry that is up to date in the files is recovered. -/
theorem Trails.durable (henv : env.Lawful) {s : Sys} {store : ChainValidatorStore}
    {unsaved : List ChainKey} (hproc : s.proc = some store)
    (h : Trails env maxAge s.clock store.key s.disk store.map unsaved) {k : ChainKey}
    {top : ChainState} (htop : store.map.lookup k = some top) (hk : k ∉ unsaved) :
    Durable env maxAge s k := by
  obtain ⟨saved, torn, hstands, hlags⟩ := h
  refine ⟨store, top, hproc, htop, fun rand nowPurge nowReplay hpurge hreplay hidle => ?_⟩
  have hlive : cut nowReplay maxAge < stamp top := cutoff_lt_iff.mp hidle
  have hle : cut s.clock maxAge ≤ cut nowReplay maxAge :=
    cut_mono (UInt64.le_trans hpurge hreplay)
  have hsaved := hlags.current k top htop hk (Nat.lt_of_le_of_lt hle hlive)
  obtain ⟨store', ops, hload, hspec⟩ :=
    (Startable.stands hstands).loadOrCreate_spec henv rand hpurge hreplay
  exact ⟨store', ops, top, hload, hspec.live k top hsaved hlive, rfl, rfl, UInt32.le_refl _⟩

/-- A request that gets past its checks sets and appends its entry. -/
theorem perform_of_change {rand : Rand} {now : UInt64} {store : ChainValidatorStore}
    {req : Request} {k : ChainKey} {state : ChainState} (h : Change env now store req k state) :
    let call := appendJournal env rand { store with map := store.map.insert k state } k.1 k.2.1
      state
    perform env maxAge rand now store req = (call.store, call.ops) := by
  cases h with
  | register hlength hnew htotal hpeer =>
    simp only [perform, register, if_neg hlength, hnew, if_neg (Nat.not_le_of_lt htotal),
      if_neg (Nat.not_le_of_lt hpeer)]
    rfl
  | validate hold hrange hsteps hvalue =>
    simp only [perform, validate, hold, if_neg hrange, if_neg hsteps, if_neg hvalue]
    rfl

/-- The entry is in memory then, and the call has appended it. -/
theorem Change.performed (henv : env.Lawful) (maxAge : UInt64) (rand : Rand) {now : UInt64}
    {store : ChainValidatorStore} {req : Request} {k : ChainKey} {state : ChainState}
    (h : Change env now store req k state) (hlen : k.1.length = 33) :
    (perform env maxAge rand now store req).1.map.lookup k = some state ∧
      appends (perform env maxAge rand now store req).2 = true := by
  rw [perform_of_change h]
  obtain ⟨_, hshape⟩ | ⟨_, hshape⟩ := appendJournal_shape henv rand
    { store with map := store.map.insert k state } hlen state
  · rw [hshape]
    exact ⟨AList.lookup_insert _, rfl⟩
  · rw [hshape]
    exact ⟨AList.lookup_insert _, rfl⟩

/-- An accepted presentation is past all checks. -/
theorem validate_change {rand : Rand} {now : UInt64} {store : ChainValidatorStore} {k : ChainKey}
    {index : UInt32} {value : ChainValue}
    (hresult : (validate env rand now store k.1 k.2 index value).result = .ok .accepted) :
    ∃ old, store.map.lookup k = some old ∧ Change env now store (.validate k.1 k.2 index value) k
      (old.advance index value now) := by
  simp only [validate] at hresult
  split at hresult
  · cases hresult
  next old hold =>
    split at hresult
    · cases hresult
    next hrange =>
      split at hresult
      · cases hresult
      next hsteps =>
        split at hresult
        · cases hresult
        next hvalue => exact ⟨old, hold, .validate hold hrange hsteps hvalue⟩

/-- What an acknowledgement says about the request. -/
theorem Acknowledges.cases (maxAge : UInt64) {store : ChainValidatorStore} {k : ChainKey} {e : FaultEvent}
    (h : Acknowledges env store k e) :
    ∃ req rand now, e = .done (.call req rand now) ∧ req.key? = some k ∧
      ((∃ state, Change env now store req k state) ∨
        req.repeats store ∧ perform env maxAge rand now store req = (store, []) ∧
          ∃ state, store.map.lookup k = some state) := by
  cases h with
  | @registered reg rand now hkey hresult =>
    subst hkey
    refine ⟨_, rand, now, rfl, rfl, .inl ⟨freshState reg now, ?_⟩⟩
    simp only [register] at hresult
    split at hresult
    · cases hresult
    next hlength =>
      split at hresult
      · split at hresult
        · cases hresult
        · cases hresult
      next hnew =>
        split at hresult
        · cases hresult
        next htotal =>
          split at hresult
          · cases hresult
          next hpeer =>
            exact .register hlength hnew (Nat.lt_of_not_le htotal) (Nat.lt_of_not_le hpeer)
  | @alreadyRegistered reg rand now hkey hresult =>
    subst hkey
    refine ⟨_, rand, now, rfl, rfl, .inr ?_⟩
    simp only [register] at hresult
    split at hresult
    · cases hresult
    next hlength =>
      split at hresult
      next existing hexisting =>
        split at hresult
        next hsame =>
          refine ⟨⟨existing, hexisting, hsame⟩, ?_, existing, hexisting⟩
          simp only [perform, register, if_neg hlength, hexisting, if_pos hsame]
        · cases hresult
      next hnew =>
        split at hresult
        · cases hresult
        · split at hresult
          · cases hresult
          · simp only [appendJournal] at hresult
            split at hresult
            · split at hresult <;> cases hresult
            · cases hresult
  | @accepted index value rand now hresult =>
    obtain ⟨old, _, hchange⟩ := validate_change hresult
    exact ⟨_, rand, now, rfl, rfl, .inl ⟨_, hchange⟩⟩

/-- In every run in which no key whose last append failed is registered again
and nothing is appended behind a torn record, what is acknowledged is durable. -/
theorem acknowledged_durable (henv : env.Lawful) {clock : UInt64} {s s' : FaultSys}
    {e : FaultEvent} {store : ChainValidatorStore} {k : ChainKey}
    (hrun : Reach (FaultStep env maxAge) (Careful env) (FaultSys.fresh clock) s)
    (hcareful : Careful env s e) (hstep : FaultStep env maxAge s e s')
    (hproc : s.sys.proc = some store) (hack : Acknowledges env store k e) :
    Durable env maxAge s'.sys k := by
  have hinv : FaultInv env maxAge s := by
    refine hrun.invariant (FaultInv env maxAge)
      (fun h hok hstep => h.step henv hok hstep) ?_
    exact ⟨∅, [], startable_fresh clock⟩
  obtain ⟨req, rand, now, rfl, hkey, hwhat⟩ := hack.cases maxAge
  cases hstep with
  | done hstep =>
    cases hstep with
    | @call store' _ _ _ hproc' hclock =>
      rw [hproc] at hproc'
      cases hproc'
      have htrails : Trails env maxAge now store.key
          (runOps (perform env maxAge rand now store req).2 s.sys.disk)
          (perform env maxAge rand now store req).1.map
          (s.unsavedAfter env maxAge (.done (.call req rand now))) :=
        trails_called henv hproc hclock hinv fun k state hchange =>
          ((hcareful store req rand now hproc rfl).2 k state hchange).imp id And.right
      rw [← perform_key env maxAge rand now store req] at htrails
      have hops : s.opsOf env maxAge (.done (.call req rand now)) =
          (perform env maxAge rand now store req).2 := opsOf_eq hproc rfl
      obtain ⟨state, hchange⟩ | ⟨hrepeats, hnoop, state, hstate⟩ := hwhat
      · have hlen : k.1.length = 33 := by
          simp only [FaultInv, hproc] at hinv
          obtain ⟨_, _, _, hlags⟩ := hinv
          exact hchange.key_length hlags.fits
        obtain ⟨hstate, happends⟩ := hchange.performed henv maxAge rand hlen
        refine htrails.durable henv rfl hstate ?_
        simp only [FaultSys.unsavedAfter, hops, happends, FaultEvent.request, Option.bind_some,
          hkey, if_true]
        split
        · exact List.not_mem_nil
        · intro hin
          have hne := (List.mem_filter.mp hin).2
          exact of_decide_eq_true hne rfl
      · have hkept := (hcareful store req rand now hproc rfl).1 rfl hrepeats k hkey
        rw [hnoop] at htrails hops ⊢
        refine htrails.durable henv rfl hstate ?_
        simp only [FaultSys.unsavedAfter, hops, compacts, appends]
        exact hkept

/-! ## A failed registration that is acknowledged -/

section Failed

variable {now : UInt64} {store : ChainValidatorStore} {req : Request} {k : ChainKey}
  {state : ChainState}

/-- The store is as if the append had worked, but for the record count. -/
theorem failedStore_append (h : Change env now store req k state) (rand : Rand) :
    failedStore store (perform env maxAge rand now store req).1
      (perform env maxAge rand now store req).2 .append =
        { store with map := store.map.insert k state } := by
  have hkey := perform_key env maxAge rand now store req
  rw [perform_of_change h] at hkey ⊢
  have hmap : (appendJournal env rand { store with map := store.map.insert k state } k.1 k.2.1
      state).store.map = store.map.insert k state := appendJournal_map rand _ _ _ _
  unfold failedStore
  rw [hkey, hmap]

/-- The journal cannot be opened. -/
theorem Change.failsIn_open (henv : env.Lawful) (h : Change env now store req k state)
    (hlen : k.1.length = 33) (maxAge : UInt64) (rand : Rand) (disk : Disk) :
    FailsIn .append (perform env maxAge rand now store req).2 disk disk := by
  rw [perform_of_change h]
  obtain ⟨_, hshape⟩ | ⟨_, hshape⟩ := appendJournal_shape henv rand
    { store with map := store.map.insert k state } hlen state
  · rw [hshape]
    exact .append .stop
  · rw [hshape]
    exact .append .stop

end Failed

/-- A registration that is in memory is acknowledged, and writes nothing. -/
theorem register_again (now : UInt64) {store : ChainValidatorStore} {reg : ChainRegistration}
    (hlength : ¬ (reg.length = 0 ∨ MAX_CHAIN_LENGTH < reg.length))
    (hstate : store.map.lookup reg.key = some (freshState reg now)) (rand : Rand)
    (now' : UInt64) : register env rand now' store reg = ⟨store, [], .ok .alreadyRegistered⟩ := by
  simp only [register, if_neg hlength, hstate]
  exact if_pos ⟨rfl, rfl⟩

/-- The store of the first process. -/
def sampleStore : ChainValidatorStore := ⟨zeroRand.key, ∅, 0⟩

/-- Its files. -/
def sampleDisk : Disk := ⟨some zeroRand.key.1, none, some []⟩

theorem sampleFirst_eq : sampleFirst = ⟨sampleDisk, some sampleStore, 1⟩ := rfl

theorem sampleChange : Change plainEnv 1 sampleStore (.register sampleReg) sampleReg.key
    (freshState sampleReg 1) :=
  .register (by decide) rfl (by decide) (by decide)

/-- The store when the journal could not be opened for the sample registration. -/
def sampleFailed : ChainValidatorStore :=
  { sampleStore with map := sampleStore.map.insert sampleReg.key (freshState sampleReg 1) }

/-- The first process. -/
def openedSys : FaultSys :=
  (FaultSys.fresh 1).after plainEnv 100 (.done (.start zeroRand 1 1))
    ⟨sampleDisk, some sampleStore, 1⟩

/-- Its registration fails. -/
def failedSys : FaultSys :=
  openedSys.after plainEnv 100 (.failed (.register sampleReg) zeroRand 1 .append)
    ⟨sampleDisk, some sampleFailed, 1⟩

/-- The caller tries again, and is told that the chain is registered. -/
def repeatedSys : FaultSys :=
  failedSys.after plainEnv 100 (.done (.call (.register sampleReg) zeroRand 1))
    ⟨sampleDisk, some sampleFailed, 1⟩

theorem reach_failedSys :
    Reach (FaultStep plainEnv 100) (Careful plainEnv) (FaultSys.fresh 1) failedSys := by
  have hopen : FaultStep plainEnv 100 (FaultSys.fresh 1) (.done (.start zeroRand 1 1)) openedSys :=
    .done (sampleFirst_eq ▸ step_sampleFirst)
  have hfails := sampleChange.failsIn_open plainEnv_lawful sampleReg.peerId.2 100 zeroRand
    sampleDisk
  have hfail : FaultStep plainEnv 100 openedSys (.failed (.register sampleReg) zeroRand 1 .append)
      failedSys := by
    have hstep : FaultStep plainEnv 100 openedSys (.failed (.register sampleReg) zeroRand 1 .append)
        _ := .failed rfl (UInt64.le_refl 1) hfails
    rw [failedStore_append sampleChange] at hstep
    exact hstep
  refine (Reach.refl.snoc hopen ?_).snoc hfail ?_
  · rintro store req rand now hproc _
    cases hproc
  · rintro store req rand now hproc hreq
    refine ⟨nofun, fun k state _ => .inl ⟨[], rfl, nofun⟩⟩

theorem sampleFailed_again : register plainEnv zeroRand 1 sampleFailed sampleReg =
    ⟨sampleFailed, [], .ok .alreadyRegistered⟩ :=
  register_again 1 (by decide) (AList.lookup_insert _) zeroRand 1

theorem failed_registration_acknowledged :
    Reach (FaultStep plainEnv 100) (fun _ _ => True) (FaultSys.fresh 1) failedSys ∧
      FaultStep plainEnv 100 failedSys (.done (.call (.register sampleReg) zeroRand 1))
        repeatedSys ∧
      failedSys.sys.proc = some sampleFailed ∧
      Acknowledges plainEnv sampleFailed sampleReg.key
        (.done (.call (.register sampleReg) zeroRand 1)) ∧
      ¬ Durable plainEnv 100 repeatedSys.sys sampleReg.key := by
  refine ⟨reach_failedSys.imp fun _ _ _ => trivial, ?_, rfl, .alreadyRegistered rfl ?_, ?_⟩
  · have hcall : Step plainEnv 100 failedSys.sys (.call (.register sampleReg) zeroRand 1) _ :=
      .call rfl (UInt64.le_refl 1)
    simp only [perform, sampleFailed_again] at hcall
    exact .done hcall
  · rw [sampleFailed_again]
  · rintro ⟨store, top, hproc, htop, hrecovers⟩
    cases hproc
    have htop' : sampleFailed.map.lookup sampleReg.key = some (freshState sampleReg 1) :=
      AList.lookup_insert _
    rw [htop'] at htop
    cases htop
    obtain ⟨store', ops, state, hload, hstate, _⟩ :=
      hrecovers zeroRand 1 1 (UInt64.le_refl 1) (UInt64.le_refl 1) (by decide)
    have hempty : loadOrCreate plainEnv zeroRand 100 1 1 sampleDisk = .ok (sampleStore, []) := rfl
    have hload' : loadOrCreate plainEnv zeroRand 100 1 1 sampleDisk = .ok (store', ops) := hload
    rw [hempty] at hload'
    cases hload'
    cases hstate

/-- The first token is accepted all the same, and its record has the whole entry. -/
def spentSys : FaultSys :=
  failedSys.after plainEnv 100 (.done (.call tornToken zeroRand 1))
    ⟨runOps (perform plainEnv 100 zeroRand 1 sampleFailed tornToken).2 sampleDisk,
      some (perform plainEnv 100 zeroRand 1 sampleFailed tornToken).1, 1⟩

theorem acknowledged_durable_spent : Durable plainEnv 100 spentSys.sys sampleReg.key := by
  have hstep : FaultStep plainEnv 100 failedSys (.done (.call tornToken zeroRand 1)) spentSys :=
    .done (.call rfl (UInt64.le_refl 1))
  have hcareful : Careful plainEnv failedSys (.done (.call tornToken zeroRand 1)) := by
    rintro store req rand now hproc hreq
    cases hreq
    exact ⟨fun _ => nofun, fun k state _ => .inl ⟨[], rfl, nofun⟩⟩
  have hstate : sampleFailed.map.lookup sampleReg.key = some (freshState sampleReg 1) :=
    AList.lookup_insert _
  have haccepted : (validate plainEnv zeroRand 1 sampleFailed sampleReg.key.1 sampleReg.key.2 1
      (.replicate _ 7)).result = .ok .accepted :=
    (validate_accepts plainEnv_lawful zeroRand 1 sampleReg.peerId.2 hstate (by decide) (by decide)
      (by decide) (by decide +kernel)).1
  exact acknowledged_durable plainEnv_lawful reach_failedSys hcareful hstep rfl
    (.accepted haccepted)

end Pizzini.Relay
