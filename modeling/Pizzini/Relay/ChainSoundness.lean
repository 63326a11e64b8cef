import Pizzini.Relay.ChainFaults

/-!
# What the entries of the chain-validator store say

Every entry in memory is on the chain it was registered with: its cursor's value
hashes, in as many steps as its index says, onto the registered root
(`entry_sound`). It holds in every run of `ChainFaults`, whatever fails and
wherever the process stops.

The entries come from `register`, from `validate` and from the files, so the
invariant is about all three. Of the snapshot, which is replaced as a whole, it
says what is in it. A journal with torn records in the middle can be read out of
step, and the invariant only says what was ever sealed: that nothing else
decrypts is the cipher's authenticity (`Authentic`).
-/

namespace Pizzini.Relay

open Wire MonotoneLog Runs

variable (env : ChainEnv)

/-! ## Sound entries -/

/-- The entry of `k` is on the chain of one of the registrations of `k`. -/
structure SoundEntry (regs : List ChainRegistration) (k : ChainKey) (state : ChainState) :
    Prop where
  pos : 1 ≤ state.length.toNat
  bounded : state.length.toNat ≤ 2 ^ 20
  inRange : state.lastIndex ≤ state.length
  onChain : env.blake3^[state.lastIndex.toNat] state.lastValue = state.root
  registered : ∃ reg ∈ regs, reg.key = k ∧ state.root = reg.root ∧ state.length = reg.length

/-- All entries of the map are. -/
def SoundMap (regs : List ChainRegistration) (map : Dict ChainKey ChainState) : Prop :=
  ∀ k state, map.lookup k = some state → SoundEntry env regs k state

/-- The record was sealed under `key`, and holds a sound entry. -/
def SoundRecord (regs : List ChainRegistration) (key : Key) (ct : Bytes) : Prop :=
  ∃ rand k state, SoundEntry env regs k state ∧
    ct = journalCiphertext env rand key k.1 k.2.1 state

/-- The snapshot was sealed under `key`, and holds a sound map. -/
def SoundSnapshot (regs : List ChainRegistration) (key : Key) (bytes : Bytes) : Prop :=
  ∃ nonce map, SoundMap env regs map ∧
    bytes = encryptWithAad env.cipher key nonce (env.serde.docToVec (snapshotDoc map)) AAD

/-- A write of a running store. -/
inductive SoundOp (regs : List ChainRegistration) (key : Key) : DiskOp → Prop where
  | record {ct : Bytes} (h : SoundRecord env regs key ct) (hsize : ct.length < 2 ^ 32) :
      SoundOp regs key (.appendJournal (frame ct))
  | snapshot {bytes : Bytes} (h : SoundSnapshot env regs key bytes) :
      SoundOp regs key (.writeSnapshot bytes)
  | truncate : SoundOp regs key .truncateJournal
  | create : SoundOp regs key .createJournal

/-- What was sealed so far under the key of the files. -/
structure SoundFiles (regs : List ChainRegistration) (records : List Bytes) (key : Key)
    (disk : Disk) : Prop where
  keyFile : disk.keyFile = some key.1
  snapshot : ∀ bytes, disk.snapshot = some bytes → SoundSnapshot env regs key bytes
  records : ∀ ct ∈ records, SoundRecord env regs key ct

/-- The condition on a run: whatever a startup finds in the journal that decrypts
was sealed by the store. Only AEAD ciphertexts are asked for, at any offset and
of any length. -/
def Authentic (s : FaultSys) : FaultEvent → Prop
  | .done (.start _ _ _) | .done (.startCrash _ _ _) =>
    ∀ (key : Key) (ct plaintext : Bytes), s.sys.disk.keyFile = some key.1 →
      ct <:+: s.sys.disk.journalBytes →
      decryptWithAad env.cipher key ct JOURNAL_AAD = .ok plaintext → ct ∈ s.sealedRecords
  | _ => True

variable {env} {regs regs' : List ChainRegistration}

theorem SoundEntry.mono {k : ChainKey} {state : ChainState} (h : SoundEntry env regs k state)
    (hsub : regs ⊆ regs') : SoundEntry env regs' k state := by
  obtain ⟨reg, hreg, hsame⟩ := h.registered
  exact { h with registered := ⟨reg, hsub hreg, hsame⟩ }

/-- An entry is of a 33-byte peer. -/
theorem SoundEntry.key_length {k : ChainKey} {state : ChainState}
    (h : SoundEntry env regs k state) : k.1.length = 33 := by
  obtain ⟨reg, _, rfl, _⟩ := h.registered
  exact reg.peerId.2

theorem SoundMap.mono {map : Dict ChainKey ChainState} (h : SoundMap env regs map)
    (hsub : regs ⊆ regs') : SoundMap env regs' map :=
  fun k state hk => (h k state hk).mono hsub

theorem SoundRecord.mono {key : Key} {ct : Bytes} (h : SoundRecord env regs key ct)
    (hsub : regs ⊆ regs') : SoundRecord env regs' key ct := by
  obtain ⟨rand, k, state, hsound, rfl⟩ := h
  exact ⟨rand, k, state, hsound.mono hsub, rfl⟩

theorem SoundSnapshot.mono {key : Key} {bytes : Bytes} (h : SoundSnapshot env regs key bytes)
    (hsub : regs ⊆ regs') : SoundSnapshot env regs' key bytes := by
  obtain ⟨nonce, map, hmap, rfl⟩ := h
  exact ⟨nonce, map, hmap.mono hsub, rfl⟩

theorem SoundMap.insert {map : Dict ChainKey ChainState} (h : SoundMap env regs map)
    {k : ChainKey} {state : ChainState} (hstate : SoundEntry env regs k state) :
    SoundMap env regs (map.insert k state) := by
  intro k' state' hk'
  rw [AList.lookup_insert_of_eq_or_ne] at hk'
  split at hk'
  · next heq =>
    cases hk'
    exact heq ▸ hstate
  · exact h k' state' hk'

theorem SoundMap.retain {map : Dict ChainKey ChainState} (h : SoundMap env regs map)
    (keep : ChainKey → ChainState → Bool) : SoundMap env regs (map.retain keep) := by
  intro k state hk
  rw [AList.lookup_retain, Option.filter_eq_some_iff] at hk
  exact h k state hk.1

/-! ## Requests -/

/-- The constant-time comparison compares. -/
theorem eq_of_ctDiff_eq_zero {a b : Bytes} (hlen : a.length = b.length) (h : ctDiff a b = 0) :
    a = b := by
  -- no difference is cleared again
  have hfold : ∀ (xs ys : Bytes) (acc : UInt8), xs.length = ys.length →
      (xs.zip ys).foldl (fun diff xy => diff ||| (xy.1 ^^^ xy.2)) acc = 0 → acc = 0 ∧ xs = ys := by
    intro xs
    induction xs with
    | nil =>
      intro ys acc hlen hacc
      cases ys with
      | nil => exact ⟨hacc, rfl⟩
      | cons y ys => cases hlen
    | cons x xs ih =>
      intro ys acc hlen hacc
      cases ys with
      | nil => cases hlen
      | cons y ys =>
        obtain ⟨hacc', hrest⟩ := ih ys _ (Nat.succ.inj hlen) hacc
        rw [UInt8.or_eq_zero_iff, UInt8.xor_eq_zero_iff] at hacc'
        exact ⟨hacc'.1, congrArg₂ List.cons hacc'.2 hrest⟩
  exact (hfold a b 0 hlen h).2

/-- An index past the cursor is the cursor's and the steps between them. -/
theorem iterate_past {old index : UInt32} (hle : old ≤ index) (step : ChainValue → ChainValue)
    (value : ChainValue) :
    step^[index.toNat] value = step^[old.toNat] (step^[(index - old).toNat] value) := by
  have hsub := UInt32.toNat_sub_of_le _ _ hle
  have hle' := UInt32.le_iff_toNat_le.mp hle
  rw [← Function.iterate_add_apply, hsub, Nat.add_sub_cancel' hle']

/-- The entry a request sets is on the chain if the one before it is. -/
theorem Change.sound {now : UInt64} {store : ChainValidatorStore} {req : Request} {k : ChainKey}
    {state : ChainState} (h : Change env now store req k state)
    (hmap : SoundMap env regs store.map) (hnew : ∀ reg, req = .register reg → reg ∈ regs) :
    SoundEntry env regs k state := by
  cases h with
  | @register reg hlength _ _ _ =>
    rw [not_or] at hlength
    refine ⟨?_, ?_, ?_, rfl, reg, hnew reg rfl, rfl, rfl, rfl⟩
    · refine Nat.pos_of_ne_zero fun hzero => hlength.1 ?_
      exact UInt32.toNat_inj.mp hzero
    · exact UInt32.le_iff_toNat_le.mp (UInt32.not_lt.mp hlength.2)
    · exact UInt32.le_iff_toNat_le.mpr (Nat.zero_le _)
  | @validate peerId chainId index value old hold hrange _ hvalue =>
    have hsound := hmap _ old hold
    rw [not_or, not_or] at hrange
    have hlast : old.lastIndex ≤ index := UInt32.le_of_lt (UInt32.not_le.mp hrange.2.1)
    have hsame : env.blake3^[(index - old.lastIndex).toNat] value = old.lastValue := by
      refine Subtype.ext (eq_of_ctDiff_eq_zero ?_ (Decidable.of_not_not hvalue))
      exact (env.blake3^[_] value).2.trans old.lastValue.2.symm
    refine ⟨hsound.pos, hsound.bounded, UInt32.not_lt.mp hrange.2.2, ?_, hsound.registered⟩
    show env.blake3^[index.toNat] value = old.root
    rw [iterate_past hlast, hsame]
    exact hsound.onChain

section Perform

variable {store : ChainValidatorStore} {rand : Rand}

/-- A compaction of a sound map. -/
theorem compact_sound (hmap : SoundMap env regs store.map) :
    ∀ op ∈ (compact env rand store).2, SoundOp env regs store.key op := by
  intro op hop
  cases List.mem_cons.mp hop with
  | inl heq =>
    subst heq
    exact .snapshot ⟨rand.snapshotNonce, store.map, hmap, rfl⟩
  | inr hin =>
    cases List.mem_singleton.mp hin
    exact .truncate

/-- Appending the record of a sound entry, and the compaction it may lead to. -/
theorem appendJournal_sound (hmap : SoundMap env regs store.map) {k : ChainKey}
    {state : ChainState} (hstate : SoundEntry env regs k state) :
    ∀ op ∈ (appendJournal env rand store k.1 k.2.1 state).ops, SoundOp env regs store.key op := by
  simp only [appendJournal]
  split
  next hsize =>
    have hrecord : SoundOp env regs store.key
        (.appendJournal (frame (journalCiphertext env rand store.key k.1 k.2.1 state))) :=
      .record ⟨rand, k, state, hstate, rfl⟩ hsize
    split
    · intro op hop
      cases List.mem_cons.mp hop with
      | inl heq =>
        subst heq
        exact hrecord
      | inr hin =>
        have hcounted : SoundMap env regs
            { store with journalLen := store.journalLen + 1 : ChainValidatorStore }.map := hmap
        exact compact_sound hcounted op hin
    · intro op hop
      cases List.mem_singleton.mp hop
      exact hrecord
  · exact fun op hop => absurd hop List.not_mem_nil

/-- A request keeps the map sound, and writes what is sound. `regs'` has the
registration, if the request is one and gets past its checks. -/
theorem perform_sound (henv : env.Lawful) (maxAge : UInt64) (rand : Rand) (now : UInt64)
    (hmap : SoundMap env regs store.map) (hsub : regs ⊆ regs') (req : Request)
    (hnew : ∀ reg, req = .register reg →
      appends (perform env maxAge rand now store req).2 = true → reg ∈ regs') :
    SoundMap env regs' (perform env maxAge rand now store req).1.map ∧
      ∀ op ∈ (perform env maxAge rand now store req).2, SoundOp env regs' store.key op := by
  have hmap' := hmap.mono hsub
  obtain hnoop | ⟨k, state, hchange, happend⟩ | ⟨_, hcompact⟩ :=
    perform_shape env maxAge rand now store req
  · rw [hnoop]
    exact ⟨hmap', fun op hop => absurd hop List.not_mem_nil⟩
  · have hlen : k.1.length = 33 := by
      obtain ⟨hlen | ⟨old, hold⟩, _⟩ := hchange.supersedes
      · exact hlen
      · exact (hmap k old hold).key_length
    have hstate : SoundEntry env regs' k state := hchange.sound hmap' fun reg hreg =>
      hnew reg hreg (hchange.performed henv maxAge rand hlen).2
    have hset : SoundMap env regs'
        { store with map := store.map.insert k state : ChainValidatorStore }.map :=
      hmap'.insert hstate
    rw [happend]
    refine ⟨?_, appendJournal_sound hset hstate⟩
    show SoundMap env regs' (appendJournal env rand _ k.1 k.2.1 state).store.map
    rw [appendJournal_map]
    exact hset
  · rw [hcompact]
    have hkept : SoundMap env regs' { store with
        map := store.map.retain fun _ e => decide (cut now maxAge < stamp e) :
          ChainValidatorStore }.map := hmap'.retain _
    exact ⟨hkept, compact_sound hkept⟩

end Perform

/-! ## Files -/

namespace SoundFiles

variable {records : List Bytes} {key : Key} {disk disk' : Disk} {ops : List DiskOp}

theorem mono (h : SoundFiles env regs records key disk) (hsub : regs ⊆ regs') :
    SoundFiles env regs' records key disk where
  keyFile := h.keyFile
  snapshot bytes hbytes := (h.snapshot bytes hbytes).mono hsub
  records ct hct := (h.records ct hct).mono hsub

/-- More has been sealed. -/
theorem append_records (h : SoundFiles env regs records key disk) {more : List Bytes}
    (hmore : ∀ ct ∈ more, SoundRecord env regs key ct) :
    SoundFiles env regs (records ++ more) key disk where
  keyFile := h.keyFile
  snapshot := h.snapshot
  records ct hct := (List.mem_append.mp hct).elim (h.records ct) (hmore ct)

theorem run_op (h : SoundFiles env regs records key disk) {op : DiskOp}
    (hop : SoundOp env regs key op) : SoundFiles env regs records key (op.run disk) := by
  cases hop with
  | record _ _ => exact ⟨h.keyFile, h.snapshot, h.records⟩
  | snapshot hbytes =>
    refine ⟨h.keyFile, fun bytes heq => ?_, h.records⟩
    cases heq
    exact hbytes
  | truncate => exact ⟨h.keyFile, h.snapshot, h.records⟩
  | create => exact ⟨h.keyFile, h.snapshot, h.records⟩

/-- Writes that stop anywhere. What a torn append leaves does not matter. -/
theorem crashIn (h : SoundFiles env regs records key disk)
    (hops : ∀ op ∈ ops, SoundOp env regs key op) (hcrash : CrashIn ops disk disk') :
    SoundFiles env regs records key disk' := by
  induction hcrash with
  | stop => exact h
  | torn _ => exact ⟨h.keyFile, h.snapshot, h.records⟩
  | next _ ih =>
    refine ih (h.run_op (hops _ List.mem_cons_self)) fun op hop => ?_
    exact hops op (List.mem_cons_of_mem _ hop)

theorem runOps (h : SoundFiles env regs records key disk)
    (hops : ∀ op ∈ ops, SoundOp env regs key op) :
    SoundFiles env regs records key (Relay.runOps ops disk) :=
  h.crashIn hops (crashIn_whole ops disk)

/-- Writes one of which fails. -/
theorem failsIn (h : SoundFiles env regs records key disk)
    (hops : ∀ op ∈ ops, SoundOp env regs key op) {fault : FaultAt}
    (hfails : FailsIn fault ops disk disk') : SoundFiles env regs records key disk' := by
  cases hfails with
  | append hcrash =>
    refine h.crashIn (fun op hop => hops op ?_) hcrash
    rw [List.mem_singleton.mp hop]
    exact List.mem_cons_self
  | snapshot => exact h.runOps fun op hop => hops op (List.mem_append_left _ hop)
  | @truncate pre bytes _ _ hcrash =>
    refine (h.runOps fun op hop => hops op ?_).crashIn (fun op hop => hops op ?_) hcrash
    · obtain hpre | hsnap := List.mem_append.mp hop
      · exact List.mem_append_left _ hpre
      · rw [List.mem_singleton.mp hsnap]
        exact List.mem_append_right _ List.mem_cons_self
    · rw [List.mem_singleton.mp hop]
      exact List.mem_append_right _ (List.mem_cons_of_mem _ List.mem_cons_self)

end SoundFiles

/-- The ciphertexts among sound writes. -/
theorem sealed_sound (henv : env.Lawful) {key : Key} {ops : List DiskOp}
    (hops : ∀ op ∈ ops, SoundOp env regs key op) {ct : Bytes}
    (hct : ct ∈ ops.filterMap fun op =>
      match op with
      | .appendJournal framed => (unframe framed).map Prod.fst
      | _ => none) : SoundRecord env regs key ct := by
  obtain ⟨op, hop, hsealed⟩ := List.mem_filterMap.mp hct
  cases hops op hop with
  | @record ct' h hsize =>
    have hpos : 0 < ct'.length := by
      obtain ⟨rand, k, state, _, rfl⟩ := h
      rw [journalCiphertext, length_encryptWithAad henv.cipher]
      omega
    have hframe : unframe (frame ct') = some (ct', []) := by
      have hread := unframe_frame_append hpos hsize []
      rwa [List.append_nil] at hread
    simp only [hframe, Option.map_some, Option.some.injEq] at hsealed
    exact hsealed ▸ h
  | snapshot _ => cases hsealed
  | truncate => cases hsealed
  | create => cases hsealed

/-! ## Startup -/

section Startup

variable {maxAge nowPurge nowReplay : UInt64} {rand : Rand} {disk : Disk}
  {store : ChainValidatorStore} {ops : List DiskOp} {records : List Bytes} {key : Key}

/-- The entries read off a sound snapshot. -/
theorem readSnapshot_sound (henv : env.Lawful) (hfiles : SoundFiles env regs records key disk)
    {map : Dict ChainKey ChainState}
    (hread : readSnapshot env key (saturatingSub nowPurge maxAge) disk.snapshot = .ok map) :
    SoundMap env regs map := by
  cases hsnap : disk.snapshot with
  | none =>
    rw [hsnap] at hread
    cases hread
    exact nofun
  | some bytes =>
    obtain ⟨nonce, saved, hsaved, rfl⟩ := hfiles.snapshot bytes hsnap
    obtain ⟨doc, hdoc, hperm⟩ := henv.serde.doc_round (snapshotDoc saved)
    rw [hsnap, readSnapshot, decryptWithAad_encryptWithAad henv.cipher] at hread
    simp only [bind, Except.bind, hdoc] at hread
    cases hread
    intro k state hk
    rw [lookup_purgeStale hperm, AList.lookup_retain, Option.filter_eq_some_iff] at hk
    exact hsaved k state hk.1

/-- A sealed record sets a sound entry, or nothing. -/
theorem applyRecord_sound (henv : env.Lawful) {map : Dict ChainKey ChainState}
    (hmap : SoundMap env regs map) {ct : Bytes} (hct : SoundRecord env regs key ct)
    {rec : JournalRecord} (hread : readRecord env key ct = some rec) (cutoff : UInt64) :
    SoundMap env regs (applyRecord cutoff map rec) := by
  obtain ⟨rand, k, state, hsound, rfl⟩ := hct
  have hrec : rec = recordOf (k, state) := by
    rw [readRecord, journalCiphertext, decryptWithAad_encryptWithAad henv.cipher] at hread
    simp only [henv.serde.record_round] at hread
    exact (Option.some.inj hread).symm
  subst hrec
  rw [applyRecord]
  split
  · exact hmap
  · rw [recordOf, decodeEntry_compositeKey]
    show SoundMap env regs (applyMonotonic map k state)
    unfold applyMonotonic
    split
    · split
      · exact hmap
      · exact hmap.insert hsound
    · exact hmap.insert hsound

/-- Replaying a journal, well formed or not, whose ciphertexts are sealed. -/
theorem replayJournal_sound (henv : env.Lawful) (hfiles : SoundFiles env regs records key disk)
    (hauth : ∀ (ct plaintext : Bytes), ct <:+: disk.journalBytes →
      decryptWithAad env.cipher key ct JOURNAL_AAD = .ok plaintext → ct ∈ records)
    {map : Dict ChainKey ChainState} (hmap : SoundMap env regs map) (cutoff : UInt64) :
    SoundMap env regs (replayJournal env key cutoff disk.journalBytes map).1 := by
  have hread : ∀ rec ∈ journalRecords env key disk.journalBytes,
      ∃ ct, SoundRecord env regs key ct ∧ readRecord env key ct = some rec := by
    intro rec hrec
    obtain ⟨ct, hinfix, hdecode⟩ := infix_of_mem_readFrames hrec
    refine ⟨ct, ?_, hdecode⟩
    rw [readRecord] at hdecode
    split at hdecode
    next plaintext hplain => exact hfiles.records ct (hauth ct plaintext hinfix hplain)
    next => cases hdecode
  show SoundMap env regs ((journalRecords env key disk.journalBytes).foldl (applyRecord cutoff) map)
  generalize journalRecords env key disk.journalBytes = recs at hread
  induction recs generalizing map with
  | nil => exact hmap
  | cons rec recs ih =>
    obtain ⟨ct, hct, hdecode⟩ := hread rec List.mem_cons_self
    refine ih (applyRecord_sound henv hmap hct hdecode cutoff) fun rec hrec => ?_
    exact hread rec (List.mem_cons_of_mem _ hrec)

/-- The files as a process finds them: untouched, or sound. -/
def SoundStart (env : ChainEnv) (regs : List ChainRegistration) (records : List Bytes)
    (disk : Disk) : Prop :=
  Blank disk ∧ records = [] ∨ ∃ key, SoundFiles env regs records key disk

/-- A startup reads a sound map, and leaves sound files, also if it stops. -/
theorem loadOrCreate_sound (henv : env.Lawful) (hstart : SoundStart env regs records disk)
    (hauth : ∀ (key : Key) (ct plaintext : Bytes), disk.keyFile = some key.1 →
      ct <:+: disk.journalBytes →
      decryptWithAad env.cipher key ct JOURNAL_AAD = .ok plaintext → ct ∈ records)
    (hload : loadOrCreate env rand maxAge nowPurge nowReplay disk = .ok (store, ops)) :
    SoundMap env regs store.map ∧ SoundFiles env regs records store.key (runOps ops disk) ∧
      ∀ disk', CrashIn ops disk disk' → SoundStart env regs records disk' := by
  obtain ⟨hkey, ⟨map, hread, hmap⟩, rest, rfl, hrest⟩ := loadOrCreate_shape hload
  -- what is written behind the key file
  have hsound : SoundMap env regs store.map →
      ∀ op ∈ rest, SoundOp env regs store.key op := fun hstore op hop => by
    obtain rfl | hin := hrest op hop
    · exact .create
    · exact compact_sound hstore op hin
  cases hstart with
  | inl hblank =>
    obtain ⟨hblank, rfl⟩ := hblank
    have hnone : disk.keyFile.isNone = true := by
      rw [hblank.keyFile]
      rfl
    have hstore : SoundMap env regs store.map := by
      rw [hblank.snapshot] at hread
      cases hread
      rw [hmap, hblank.journal]
      exact nofun
    have hwritten : SoundFiles env regs [] store.key ((DiskOp.writeKey store.key).run disk) := by
      refine ⟨rfl, fun bytes hbytes => ?_, nofun⟩
      have hsnap : disk.snapshot = some bytes := hbytes
      rw [hblank.snapshot] at hsnap
      cases hsnap
    rw [if_pos hnone]
    refine ⟨hstore, hwritten.runOps (hsound hstore), fun disk' hcrash => ?_⟩
    obtain rfl | hcrash | ⟨_, _, hop, _⟩ := CrashIn.cons_cases hcrash
    · exact .inl ⟨hblank, rfl⟩
    · exact .inr ⟨store.key, hwritten.crashIn (hsound hstore) hcrash⟩
    · cases hop
  | inr hsealed =>
    obtain ⟨key, hfiles⟩ := hsealed
    have hsome : ¬ disk.keyFile.isNone = true := by
      rw [hfiles.keyFile]
      exact nofun
    have hsame : store.key = key := by
      rw [hfiles.keyFile, loadOrCreateKey_found] at hkey
      exact (Except.ok.inj hkey).symm
    subst hsame
    have hstore : SoundMap env regs store.map := by
      rw [hmap]
      refine replayJournal_sound henv hfiles (fun ct plaintext => ?_)
        (readSnapshot_sound henv hfiles hread) _
      exact hauth store.key ct plaintext hfiles.keyFile
    rw [if_neg hsome]
    refine ⟨hstore, hfiles.runOps (hsound hstore), fun disk' hcrash => ?_⟩
    exact .inr ⟨store.key, hfiles.crashIn (hsound hstore) hcrash⟩

end Startup

/-! ## Runs -/

/-- The map in memory and the files are sound. -/
def SoundSys (env : ChainEnv) (s : FaultSys) : Prop :=
  match s.sys.proc with
  | some store => SoundMap env s.registered store.map ∧
      SoundFiles env s.registered s.sealedRecords store.key s.sys.disk
  | none => SoundStart env s.registered s.sealedRecords s.sys.disk

section Steps

variable {maxAge : UInt64} {s s' : FaultSys} {e : FaultEvent}

/-- What a request of a running store comes to, however it ends. -/
theorem SoundSys.request (h : SoundSys env s) (maxAge : UInt64) (henv : env.Lawful) {store : ChainValidatorStore}
    (hproc : s.sys.proc = some store) {req : Request} {rand : Rand} {now : UInt64}
    (hreq : e.request = some (req, rand, now)) (sys : Sys) :
    let after := s.after env maxAge e sys
    SoundMap env after.registered (perform env maxAge rand now store req).1.map ∧
      SoundFiles env after.registered after.sealedRecords store.key s.sys.disk ∧
      ∀ op ∈ (perform env maxAge rand now store req).2,
        SoundOp env after.registered store.key op := by
  simp only [SoundSys, hproc] at h
  obtain ⟨hmap, hfiles⟩ := h
  have hops : s.opsOf env maxAge e = (perform env maxAge rand now store req).2 :=
    opsOf_eq hproc hreq
  have hsub : s.registered ⊆ (s.after env maxAge e sys).registered :=
    List.subset_append_left _ _
  obtain ⟨hmap', hsound⟩ := perform_sound henv maxAge rand now hmap hsub req
    fun reg hreg happends => by
      refine List.mem_append_right _ ?_
      subst hreg
      simp only [FaultSys.registeredBy, hreq, hops, happends, if_true]
      exact List.mem_singleton_self reg
  refine ⟨hmap', (hfiles.mono hsub).append_records fun ct hct => ?_, hsound⟩
  rw [FaultSys.sealedBy, hops] at hct
  exact sealed_sound henv hsound hct

/-- One event keeps entries and files sound. -/
theorem SoundSys.step (henv : env.Lawful) (h : SoundSys env s) (hauth : Authentic env s e)
    (hstep : FaultStep env maxAge s e s') : SoundSys env s' := by
  cases hstep with
  | @done ev sys hstep =>
    cases hstep with
    | @call store req rand now hproc hclock =>
      obtain ⟨hmap, hfiles, hops⟩ := h.request maxAge henv hproc
        (e := .done (.call req rand now)) rfl
        ⟨runOps (perform env maxAge rand now store req).2 s.sys.disk,
          some (perform env maxAge rand now store req).1, now⟩
      refine ⟨hmap, ?_⟩
      rw [perform_key]
      exact hfiles.runOps hops
    | @callCrash store req rand now disk' hproc hclock hcrash =>
      obtain ⟨_, hfiles, hops⟩ := h.request maxAge henv hproc
        (e := .done (.callCrash req rand now)) rfl ⟨disk', none, now⟩
      exact .inr ⟨store.key, hfiles.crashIn hops hcrash⟩
    | @start store ops rand nowPurge nowReplay hproc hclock hnow hload =>
      simp only [SoundSys, hproc] at h
      have hops : s.opsOf env maxAge (.done (.start rand nowPurge nowReplay)) = [] := by
        simp only [FaultSys.opsOf, hproc]
      obtain ⟨hmap, hfiles, _⟩ := loadOrCreate_sound henv h hauth hload
      simp only [SoundSys, FaultSys.after, FaultSys.registeredBy, FaultSys.sealedBy, hops,
        FaultEvent.request, List.filterMap_nil, List.append_nil]
      exact ⟨hmap, hfiles⟩
    | @startCrash store ops rand nowPurge nowReplay disk' hproc hclock hnow hload hcrash =>
      simp only [SoundSys, hproc] at h
      have hops : s.opsOf env maxAge (.done (.startCrash rand nowPurge nowReplay)) = [] := by
        simp only [FaultSys.opsOf, hproc]
      obtain ⟨_, _, hcrashed⟩ := loadOrCreate_sound henv h hauth hload
      simp only [SoundSys, FaultSys.after, FaultSys.registeredBy, FaultSys.sealedBy, hops,
        FaultEvent.request, List.filterMap_nil, List.append_nil]
      exact hcrashed disk' hcrash
  | @failed store req rand now fault disk' hproc hclock hfails =>
    obtain ⟨hmap, hfiles, hops⟩ := h.request maxAge henv hproc
      (e := .failed req rand now fault) rfl
      ⟨disk', some (failedStore store (perform env maxAge rand now store req).1
        (perform env maxAge rand now store req).2 fault), now⟩
    have hfiles' := hfiles.failsIn hops hfails
    rw [← perform_key env maxAge rand now store req] at hfiles'
    -- only the record count depends on where it failed
    cases fault with
    | append => exact ⟨hmap, hfiles'⟩
    | snapshot => exact ⟨hmap, hfiles'⟩
    | truncate => exact ⟨hmap, hfiles'⟩

end Steps

/-- In every run, with any failures and stops, the entries in memory are sound. -/
theorem entry_sound (henv : env.Lawful) {maxAge clock : UInt64} {s : FaultSys}
    {store : ChainValidatorStore}
    (hrun : Reach (FaultStep env maxAge) (Authentic env) (FaultSys.fresh clock) s)
    (hproc : s.sys.proc = some store) : SoundMap env s.registered store.map := by
  have hsound : SoundSys env s := by
    refine hrun.invariant (SoundSys env)
      (fun h hauth hstep => h.step henv hauth hstep) ?_
    exact .inl ⟨⟨rfl, rfl, rfl⟩, rfl⟩
  simp only [SoundSys, hproc] at hsound
  exact hsound.1

end Pizzini.Relay
