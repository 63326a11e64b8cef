import Pizzini.Relay.ChainValidatorStore

/-!
# What the chain-validator files stand for

The bridge from the bytes on disk to `MonotoneLog`. `Holds` says which base
map and which upserts the snapshot and journal files spell, up to one torn
record at the end of the journal; `Stands` adds that base and log represent a
given map at a given time. Each store call, run to its end or stopped
anywhere, leaves files that stand for its old or its new map
(`appendJournal_spec`, `compact_spec`), and `load_or_create` reads back the
live part of whatever map the files stand for (`loadOrCreate_spec`).
-/

namespace Pizzini.Relay

open Wire MonotoneLog

/-! ## Serialisation round trips -/

theorem splitOnce_append_colon {pre : Bytes} (hpre : (58 : UInt8) ∉ pre) (post : Bytes) :
    splitOnce (pre ++ 58 :: post) = some (pre, post) := by
  have hall : ∀ b ∈ pre, (b != 58) = true := by
    intro b hb
    exact bne_iff_ne.mpr fun h => hpre (h ▸ hb)
  have hdrop : (pre ++ 58 :: post).dropWhile (· != 58) = 58 :: post := by
    rw [List.dropWhile_append_of_pos hall]
    simp
  have htake : (pre ++ 58 :: post).takeWhile (· != 58) = pre := by
    rw [List.takeWhile_append_of_pos hall]
    simp
  rw [splitOnce, hdrop, htake]

/-- `decode_entry` undoes `composite_key` and `stored_entry_of`. -/
theorem decodeEntry_compositeKey (k : ChainKey) (state : ChainState) :
    decodeEntry (compositeKey k.1 k.2.1) (storedEntryOf state) = some (k, state) := by
  obtain ⟨peer, chainId, hchain⟩ := k
  simp only [decodeEntry, compositeKey, storedEntryOf,
    splitOnce_append_colon (colon_notMem_hexEncode peer), hexDecode_hexEncode,
    Option.bind_eq_bind, Option.bind_some, hchain, state.root.2, state.lastValue.2]
  rfl

/-- Distinct map keys have distinct composite keys. -/
theorem compositeKey_injective {k k' : ChainKey}
    (h : compositeKey k.1 k.2.1 = compositeKey k'.1 k'.2.1) (state : ChainState) : k = k' := by
  have hk := decodeEntry_compositeKey k state
  rw [h, decodeEntry_compositeKey k' state] at hk
  exact (congrArg Prod.fst (Option.some.inj hk)).symm

/-- The journal record of an upsert. -/
def recordOf (r : ChainKey × ChainState) : JournalRecord :=
  ⟨compositeKey r.1.1 r.1.2.1, storedEntryOf r.2⟩

/-! ## Ranks, stamps and cutoffs -/

/-- The cursor of a chain: what `apply_monotonic` compares. -/
def rank (state : ChainState) : Nat := state.lastIndex.toNat

/-- When a chain was last used: what expiry compares. -/
def stamp (state : ChainState) : Nat := state.lastUsedUnix.toNat

/-- The expiry cutoff at a time. -/
def cut (now maxAge : UInt64) : Nat := now.toNat - maxAge.toNat

theorem cutoff_lt_iff {now maxAge : UInt64} {state : ChainState} :
    saturatingSub now maxAge < state.lastUsedUnix ↔ cut now maxAge < stamp state := by
  rw [UInt64.lt_iff_toNat_lt, toNat_saturatingSub, cut, stamp]

theorem le_cutoff_iff {now maxAge : UInt64} {t : UInt64} :
    t ≤ saturatingSub now maxAge ↔ t.toNat ≤ cut now maxAge := by
  rw [UInt64.le_iff_toNat_le, toNat_saturatingSub, cut]

theorem cut_mono {now now' maxAge : UInt64} (h : now ≤ now') : cut now maxAge ≤ cut now' maxAge := by
  have := UInt64.le_iff_toNat_le.mp h
  unfold cut
  omega

theorem applyMonotonic_eq_upsert (map : Dict ChainKey ChainState) (k : ChainKey)
    (state : ChainState) : applyMonotonic map k state = upsert rank map k state := by
  unfold applyMonotonic upsert rank
  cases map.lookup k with
  | some existing => simp only [UInt32.lt_iff_toNat_lt]
  | none => rfl

/-! ## Reading back what was written -/

/-- The entries of the document `write_snapshot` serialises. -/
theorem mem_snapshotDoc {map : Dict ChainKey ChainState} {ck : Bytes} {se : StoredEntry} :
    ⟨ck, se⟩ ∈ (snapshotDoc map).entries.entries ↔
      ∃ k state, map.lookup k = some state ∧
        ck = compositeKey k.1 k.2.1 ∧ se = storedEntryOf state := by
  have hfold : (snapshotDoc map).entries =
      ((map.entries.map fun e => (compositeKey e.1.1 e.1.2.1, storedEntryOf e.2)).foldl
        (fun out e => out.insert e.1 e.2) (∅ : Dict Bytes StoredEntry)) := by
    rw [List.foldl_map]
    rfl
  rw [← AList.lookup_eq_some_iff, hfold, AList.lookup_foldl_insert]
  · simp only [List.mem_map, Prod.mk.injEq, AList.lookup_empty, reduceCtorEq, and_false, or_false]
    constructor
    · rintro ⟨⟨k, state⟩, hmem, rfl, rfl⟩
      exact ⟨k, state, AList.lookup_eq_some_iff.mpr hmem, rfl, rfl⟩
    · rintro ⟨k, state, hlook, rfl, rfl⟩
      exact ⟨⟨k, state⟩, AList.lookup_eq_some_iff.mp hlook, rfl, rfl⟩
  · intro ck se se' h h'
    obtain ⟨⟨k, state⟩, hmem, heq⟩ := List.mem_map.mp h
    obtain ⟨⟨k', state'⟩, hmem', heq'⟩ := List.mem_map.mp h'
    cases heq
    simp only [Prod.mk.injEq] at heq'
    obtain ⟨hck, rfl⟩ := heq'
    cases compositeKey_injective hck state
    rw [← AList.lookup_eq_some_iff] at hmem hmem'
    rw [hmem] at hmem'
    cases hmem'
    rfl

/-- Purging a snapshot document of `map` leaves the live entries of `map`. -/
theorem lookup_purgeStale {map : Dict ChainKey ChainState} {doc : StoreDoc}
    (hdoc : doc.entries.entries.Perm (snapshotDoc map).entries.entries)
    (now maxAge : UInt64) (k : ChainKey) :
    (purgeStale doc (saturatingSub now maxAge)).lookup k =
      (map.retain fun _ e => decide (cut now maxAge < stamp e)).lookup k := by
  have hmem : ∀ {ck se}, ⟨ck, se⟩ ∈ doc.entries.entries ↔
      ∃ k state, map.lookup k = some state ∧
        ck = compositeKey k.1 k.2.1 ∧ se = storedEntryOf state :=
    hdoc.mem_iff.trans mem_snapshotDoc
  -- the loop as a fold of insertions over the entries that survive it
  have hfold : purgeStale doc (saturatingSub now maxAge) =
      ((doc.entries.entries.filterMap fun e =>
          if e.2.lastUsedUnix ≤ saturatingSub now maxAge then none
          else decodeEntry e.1 e.2).foldl
        (fun out e => out.insert e.1 e.2) (∅ : Dict ChainKey ChainState)) := by
    rw [List.foldl_filterMap]
    unfold purgeStale
    congr 1
    funext out e
    split
    · rfl
    · cases decodeEntry e.1 e.2 <;> rfl
  have hsurvive : ∀ {k state},
      (k, state) ∈ (doc.entries.entries.filterMap fun e =>
          if e.2.lastUsedUnix ≤ saturatingSub now maxAge then none
          else decodeEntry e.1 e.2) ↔
        map.lookup k = some state ∧ cut now maxAge < stamp state := by
    intro k state
    rw [List.mem_filterMap]
    constructor
    · rintro ⟨⟨ck, se⟩, hin, hdec⟩
      obtain ⟨k', state', hlook, rfl, rfl⟩ := hmem.mp hin
      split at hdec
      · cases hdec
      · next hlive =>
        rw [decodeEntry_compositeKey] at hdec
        cases hdec
        rw [le_cutoff_iff] at hlive
        exact ⟨hlook, Nat.lt_of_not_le hlive⟩
    · rintro ⟨hlook, hlive⟩
      refine ⟨⟨_, _⟩, hmem.mpr ⟨k, state, hlook, rfl, rfl⟩, ?_⟩
      have hnot : ¬ (storedEntryOf state).lastUsedUnix ≤ saturatingSub now maxAge := by
        rw [le_cutoff_iff]
        exact Nat.not_le_of_lt hlive
      rw [if_neg hnot]
      exact decodeEntry_compositeKey k state
  refine Option.ext fun state => ?_
  rw [hfold, AList.lookup_foldl_insert, hsurvive, AList.lookup_retain, Option.filter_eq_some_iff,
    decide_eq_true_iff]
  · simp
  · intro k v v' hv hv'
    have h := (hsurvive.mp hv).1
    rw [(hsurvive.mp hv').1] at h
    exact (Option.some.inj h).symm

/-- Replaying the records of a log of upserts is the monotone replay of its
live part. -/
theorem foldl_applyRecord (log : List (ChainKey × ChainState)) (now maxAge : UInt64) :
    ∀ map : Dict ChainKey ChainState,
      (log.map recordOf).foldl (applyRecord (saturatingSub now maxAge)) map =
        replay rank map (log.filter fun r => decide (cut now maxAge < stamp r.2)) := by
  induction log with
  | nil => exact fun _ => rfl
  | cons r log ih =>
    intro map
    rw [List.map_cons, List.foldl_cons, ih]
    have hstep : applyRecord (saturatingSub now maxAge) map (recordOf r) =
        if cut now maxAge < stamp r.2 then upsert rank map r.1 r.2 else map := by
      rw [applyRecord, recordOf, decodeEntry_compositeKey]
      simp only [applyMonotonic_eq_upsert]
      have hiff : (storedEntryOf r.2).lastUsedUnix ≤ saturatingSub now maxAge ↔
          ¬ cut now maxAge < stamp r.2 := by
        rw [le_cutoff_iff, Nat.not_lt]
        rfl
      by_cases hlive : cut now maxAge < stamp r.2
      · rw [if_pos hlive, if_neg (fun h => hiff.mp h hlive)]
      · rw [if_neg hlive, if_pos (hiff.mpr hlive)]
    rw [hstep]
    by_cases hlive : cut now maxAge < stamp r.2
    · rw [if_pos hlive, List.filter_cons_of_pos (by simpa using hlive)]
      rfl
    · rw [if_neg hlive, List.filter_cons_of_neg (by simpa using hlive)]

variable {env : ChainEnv}

/-- A journal ciphertext reads back as its record, and is short enough to be
framed: a 33-byte peer makes every field's length a constant. -/
theorem readable_journalCiphertext (henv : env.Lawful) (rand : Rand) (key : Key) {k : ChainKey}
    (hk : k.1.length = 33) (state : ChainState) :
    Readable (readRecord env key) (journalCiphertext env rand key k.1 k.2.1 state)
      (recordOf (k, state)) := by
  have hlen := length_encryptWithAad henv.cipher key rand.recordNonce
    (env.serde.recordToVec ⟨compositeKey k.1 k.2.1, storedEntryOf state⟩) JOURNAL_AAD
  have hsize := henv.serde.record_size ⟨compositeKey k.1 k.2.1, storedEntryOf state⟩
  simp only [compositeKey, storedEntryOf, List.length_append, List.length_cons, length_hexEncode,
    hk, k.2.2, state.root.2, state.lastValue.2, CHAIN_ID_LEN, CHAIN_VALUE_LEN] at hsize
  refine ⟨?_, ?_, ?_⟩
  · rw [journalCiphertext, hlen]
    omega
  · rw [journalCiphertext, hlen]
    simp only [compositeKey, storedEntryOf]
    omega
  · rw [readRecord, journalCiphertext, decryptWithAad_encryptWithAad henv.cipher]
    exact henv.serde.record_round _

/-! ## What the files hold -/

/-- The files spell `base` and `log`; `torn` is what follows the last whole
record of the journal. -/
structure Holds (env : ChainEnv) (key : Key) (disk : Disk) (base : Dict ChainKey ChainState)
    (log : List (ChainKey × ChainState)) (torn : Bytes) : Prop where
  keyFile : disk.keyFile = some key.1
  snapshot : (disk.snapshot = none ∧ base = ∅) ∨ ∃ nonce, disk.snapshot =
    some (encryptWithAad env.cipher key nonce (env.serde.docToVec (snapshotDoc base)) AAD)
  journal : ∃ cts, disk.journalBytes = frames cts ++ torn ∧
    List.Forall₂ (Readable (readRecord env key)) cts (log.map recordOf)
  tail : unframe torn = none

/-- The files hold `state` for `k`, in the snapshot or in a readable journal
record. -/
def Persisted (env : ChainEnv) (disk : Disk) (k : ChainKey) (state : ChainState) : Prop :=
  ∃ key : Key, disk.keyFile = some key.1 ∧
    ((∃ bytes plaintext doc ck entry, disk.snapshot = some bytes ∧
        decryptWithAad env.cipher key bytes AAD = .ok plaintext ∧
        env.serde.docFromSlice plaintext = some doc ∧
        ⟨ck, entry⟩ ∈ doc.entries.entries ∧ decodeEntry ck entry = some (k, state)) ∨
      ∃ record ∈ journalRecords env key disk.journalBytes,
        decodeEntry record.key record.entry = some (k, state))

namespace Holds

variable {key : Key} {disk : Disk} {base : Dict ChainKey ChainState}
  {log : List (ChainKey × ChainState)} {torn : Bytes}

theorem journalRecords_eq (h : Holds env key disk base log torn) :
    journalRecords env key disk.journalBytes = log.map recordOf := by
  obtain ⟨cts, hbytes, hread⟩ := h.journal
  rw [journalRecords, hbytes]
  exact readFrames_torn hread h.tail

/-- The snapshot file, read back at a cutoff. -/
theorem readSnapshot_lookup (h : Holds env key disk base log torn) (henv : env.Lawful)
    (now maxAge : UInt64) :
    ∃ map, readSnapshot env key (saturatingSub now maxAge) disk.snapshot = .ok map ∧
      ∀ k, map.lookup k = (base.retain fun _ e => decide (cut now maxAge < stamp e)).lookup k := by
  obtain ⟨hnone, rfl⟩ | ⟨nonce, hsome⟩ := h.snapshot
  · refine ⟨∅, ?_, fun k => ?_⟩
    · rw [hnone]
      rfl
    · rw [AList.lookup_retain]
      rfl
  · obtain ⟨doc, hdoc, hperm⟩ := henv.serde.doc_round (snapshotDoc base)
    refine ⟨purgeStale doc (saturatingSub now maxAge), ?_, lookup_purgeStale hperm now maxAge⟩
    rw [hsome, readSnapshot, decryptWithAad_encryptWithAad henv.cipher]
    simp only [bind, Except.bind, hdoc]

theorem persisted_iff (h : Holds env key disk base log torn) (henv : env.Lawful) {k : ChainKey}
    {state : ChainState} : Persisted env disk k state ↔ Held base log k state := by
  constructor
  · rintro ⟨key', hkey, hfile⟩
    have hk : key' = key := Subtype.ext (Option.some.inj (hkey.symm.trans h.keyFile))
    subst hk
    obtain ⟨bytes, plaintext, doc, ck, entry, hbytes, hplain, hdoc, hmem, hdec⟩ |
      ⟨record, hmem, hdec⟩ := hfile
    · obtain ⟨hnone, _⟩ | ⟨nonce, hsome⟩ := h.snapshot
      · rw [hnone] at hbytes
        cases hbytes
      · rw [hsome] at hbytes
        cases hbytes
        rw [decryptWithAad_encryptWithAad henv.cipher] at hplain
        cases hplain
        obtain ⟨doc', hdoc', hperm⟩ := henv.serde.doc_round (snapshotDoc base)
        rw [hdoc] at hdoc'
        cases hdoc'
        obtain ⟨k', state', hlook, rfl, rfl⟩ := mem_snapshotDoc.mp (hperm.mem_iff.mp hmem)
        rw [decodeEntry_compositeKey] at hdec
        cases hdec
        exact .inl hlook
    · rw [h.journalRecords_eq] at hmem
      obtain ⟨r, hr, rfl⟩ := List.mem_map.mp hmem
      rw [recordOf, decodeEntry_compositeKey] at hdec
      cases hdec
      exact .inr hr
  · rintro (hlook | hlog)
    · obtain ⟨_, rfl⟩ | ⟨nonce, hsome⟩ := h.snapshot
      · cases hlook
      · obtain ⟨doc, hdoc, hperm⟩ := henv.serde.doc_round (snapshotDoc base)
        exact ⟨key, h.keyFile, .inl ⟨_, _, doc, _, _, hsome,
          decryptWithAad_encryptWithAad henv.cipher _ _ _ _, hdoc,
          hperm.mem_iff.mpr (mem_snapshotDoc.mpr ⟨k, state, hlook, rfl, rfl⟩),
          decodeEntry_compositeKey k state⟩⟩
    · refine ⟨key, h.keyFile, .inr ⟨recordOf (k, state), ?_, decodeEntry_compositeKey k state⟩⟩
      rw [h.journalRecords_eq]
      exact List.mem_map_of_mem hlog

/-- Files with the same contents hold the same. -/
theorem congr (h : Holds env key disk base log torn) {disk' : Disk}
    (hkey : disk'.keyFile = disk.keyFile) (hsnap : disk'.snapshot = disk.snapshot)
    (hjournal : disk'.journalBytes = disk.journalBytes) :
    Holds env key disk' base log torn where
  keyFile := hkey.trans h.keyFile
  snapshot := by rw [hsnap]; exact h.snapshot
  journal := by rw [hjournal]; exact h.journal
  tail := h.tail

/-- A whole record appended to a clean journal. -/
theorem append (h : Holds env key disk base log []) {ct : Bytes} {k : ChainKey}
    {state : ChainState} (hct : Readable (readRecord env key) ct (recordOf (k, state))) :
    Holds env key ((DiskOp.appendJournal (frame ct)).run disk) base (log ++ [(k, state)]) [] where
  keyFile := h.keyFile
  snapshot := h.snapshot
  journal := by
    obtain ⟨cts, hbytes, hread⟩ := h.journal
    refine ⟨cts ++ [ct], ?_, ?_⟩
    · show disk.journalBytes ++ frame ct = frames (cts ++ [ct]) ++ []
      rw [hbytes, frames_append]
      simp
    · rw [List.map_append]
      exact List.rel_append hread (.cons hct .nil)
  tail := rfl

/-- A record cut short at the end of a clean journal. -/
theorem append_torn (h : Holds env key disk base log []) {ct : Bytes} {record : JournalRecord}
    (hct : Readable (readRecord env key) ct record) {n : Nat} (hn : n < (frame ct).length) :
    Holds env key { disk with journal := some (disk.journalBytes ++ (frame ct).take n) }
      base log ((frame ct).take n) where
  keyFile := h.keyFile
  snapshot := h.snapshot
  journal := by
    obtain ⟨cts, hbytes, hread⟩ := h.journal
    refine ⟨cts, ?_, hread⟩
    show disk.journalBytes ++ (frame ct).take n = frames cts ++ (frame ct).take n
    rw [hbytes, List.append_nil]
  tail := unframe_take hct.lt hn

/-- The snapshot rewritten from a store's map. -/
theorem writeSnapshot (h : Holds env key disk base log torn) (rand : Rand)
    {store : ChainValidatorStore} (hkey : store.key = key) :
    Holds env key ((Relay.writeSnapshot env rand store).run disk) store.map log torn where
  keyFile := h.keyFile
  snapshot := .inr ⟨rand.snapshotNonce, by rw [← hkey]; rfl⟩
  journal := h.journal
  tail := h.tail

/-- The journal emptied. -/
theorem truncate (h : Holds env key disk base log torn) :
    Holds env key (DiskOp.truncateJournal.run disk) base [] [] where
  keyFile := h.keyFile
  snapshot := h.snapshot
  journal := ⟨[], rfl, .nil⟩
  tail := rfl

end Holds

/-! ## What the files stand for -/

/-- The files stand for `map` at `clock`: they hold a base and a log that
represent it, of entries of 33-byte peers used no later than `clock`. -/
structure Stands (env : ChainEnv) (maxAge clock : UInt64) (key : Key) (disk : Disk)
    (map : Dict ChainKey ChainState) (torn : Bytes) : Prop where
  files : ∃ base log, Holds env key disk base log torn ∧
    Represents rank stamp (cut clock maxAge) map base log ∧
    ∀ k state, Held base log k state → k.1.length = 33 ∧ state.lastUsedUnix ≤ clock

/-- No file of the store has been written. -/
structure Blank (disk : Disk) : Prop where
  keyFile : disk.keyFile = none
  snapshot : disk.snapshot = none
  journal : disk.journalBytes = []

/-- The process stops inside `compact`, with the new snapshot written and the
journal not yet truncated. -/
def MidCompact (ops : List DiskOp) (disk disk' : Disk) : Prop :=
  ∃ pre bytes, ops = pre ++ [.writeSnapshot bytes, .truncateJournal] ∧
    disk' = runOps (pre ++ [.writeSnapshot bytes]) disk

/-- A crash inside a nonempty sequence of writes, by where it falls. -/
theorem CrashIn.cons_cases {op : DiskOp} {ops : List DiskOp} {d d' : Disk}
    (h : CrashIn (op :: ops) d d') :
    d' = d ∨ CrashIn ops (op.run d) d' ∨ ∃ framed n, op = .appendJournal framed ∧
      n < framed.length ∧ d' = { d with journal := some (d.journalBytes ++ framed.take n) } := by
  cases h with
  | stop => exact .inl rfl
  | torn hn => exact .inr (.inr ⟨_, _, rfl, hn, rfl⟩)
  | next h => exact .inr (.inl h)

theorem CrashIn.nil_eq {d d' : Disk} (h : CrashIn [] d d') : d' = d := by
  cases h
  rfl

namespace Stands

variable {maxAge clock : UInt64} {key : Key} {disk : Disk} {map : Dict ChainKey ChainState}
  {torn : Bytes}

theorem mono (h : Stands env maxAge clock key disk map torn) {now : UInt64} (hle : clock ≤ now) :
    Stands env maxAge now key disk map torn := by
  obtain ⟨base, log, hholds, hrep, hwf⟩ := h.files
  refine ⟨base, log, hholds, hrep.mono (cut_mono hle), fun k state hheld => ?_⟩
  obtain ⟨hlen, hused⟩ := hwf k state hheld
  exact ⟨hlen, UInt64.le_trans hused hle⟩

/-- The entries of the map are well formed. -/
theorem entry (h : Stands env maxAge clock key disk map torn) {k : ChainKey} {state : ChainState}
    (hk : map.lookup k = some state) : k.1.length = 33 ∧ state.lastUsedUnix ≤ clock := by
  obtain ⟨base, log, _, hrep, hwf⟩ := h.files
  exact hwf k state (hrep.held hk)

theorem persisted (h : Stands env maxAge clock key disk map torn) (henv : env.Lawful)
    {k : ChainKey} {state : ChainState} (hk : map.lookup k = some state) :
    Persisted env disk k state := by
  obtain ⟨base, log, hholds, hrep, _⟩ := h.files
  exact (hholds.persisted_iff henv).mpr (hrep.held hk)

/-- Anything persisted for a key that is not expired is no newer than the
map's entry for it. -/
theorem stamp_le_of_persisted (h : Stands env maxAge clock key disk map torn) (henv : env.Lawful)
    {k : ChainKey} {state top : ChainState} (hp : Persisted env disk k state)
    (hlive : cut clock maxAge < stamp state) (htop : map.lookup k = some top) :
    stamp state ≤ stamp top := by
  obtain ⟨base, log, hholds, hrep, _⟩ := h.files
  obtain hdead | ⟨top', htop', hbelow⟩ := hrep.below ((hholds.persisted_iff henv).mp hp)
  · omega
  · rw [htop] at htop'
    cases htop'
    exact hbelow.stamp_le

/-- Creating an existing or missing journal changes nothing. -/
theorem createJournal (h : Stands env maxAge clock key disk map torn) :
    Stands env maxAge clock key (DiskOp.createJournal.run disk) map torn := by
  obtain ⟨base, log, hholds, hrest⟩ := h.files
  exact ⟨base, log, hholds.congr rfl rfl rfl, hrest⟩

/-- Dropping the expired entries of the map. -/
theorem retain (h : Stands env maxAge clock key disk map torn) {now : UInt64} (hle : clock ≤ now) :
    Stands env maxAge now key disk
      (map.retain fun _ e => decide (cut now maxAge < stamp e)) torn := by
  obtain ⟨base, log, hholds, hrep, hwf⟩ := (h.mono hle).files
  exact ⟨base, log, hholds, hrep.retain (Nat.le_refl _), hwf⟩

variable {store : ChainValidatorStore}

/-- The snapshot rewritten: the journal's records are now stale and harmless. -/
theorem writeSnapshot (h : Stands env maxAge clock key disk store.map torn) (rand : Rand)
    (hkey : store.key = key) :
    Stands env maxAge clock key ((Relay.writeSnapshot env rand store).run disk) store.map torn := by
  obtain ⟨base, log, hholds, hrep, hwf⟩ := h.files
  refine ⟨store.map, log, hholds.writeSnapshot rand hkey, hrep.rebase fun _ => rfl, ?_⟩
  rintro k state (hlook | hlog)
  · exact h.entry hlook
  · exact hwf k state (.inr hlog)

/-- A whole compaction leaves a clean, empty journal. -/
theorem compact (h : Stands env maxAge clock key disk store.map torn) (rand : Rand)
    (hkey : store.key = key) :
    Stands env maxAge clock key (runOps (Relay.compact env rand store).2 disk) store.map [] := by
  obtain ⟨base, log, hholds, hrep, hwf⟩ := h.files
  refine ⟨store.map, [], (hholds.writeSnapshot rand hkey).truncate,
    Represents.truncate fun _ => rfl, ?_⟩
  rintro k state (hlook | hlog)
  · exact h.entry hlook
  · cases hlog

/-- A compaction stopped anywhere. -/
theorem compact_crash (h : Stands env maxAge clock key disk store.map torn) (rand : Rand)
    (hkey : store.key = key) {disk' : Disk}
    (hcrash : CrashIn (Relay.compact env rand store).2 disk disk') :
    ∃ torn', Stands env maxAge clock key disk' store.map torn' := by
  obtain rfl | hcrash | ⟨_, _, hop, _⟩ := hcrash.cons_cases
  · exact ⟨torn, h⟩
  · obtain rfl | hcrash | ⟨_, _, hop, _⟩ := hcrash.cons_cases
    · exact ⟨torn, h.writeSnapshot rand hkey⟩
    · rw [hcrash.nil_eq]
      exact ⟨[], h.compact rand hkey⟩
    · cases hop
  · cases hop

/-- A whole record appended. -/
theorem append (h : Stands env maxAge clock key disk map []) (henv : env.Lawful) (rand : Rand)
    {k : ChainKey} {state : ChainState} (hk : k.1.length = 33) (hused : state.lastUsedUnix = clock)
    (hsup : ∀ old, map.lookup k = some old → rank old < rank state) :
    Stands env maxAge clock key
      ((DiskOp.appendJournal (frame (journalCiphertext env rand key k.1 k.2.1 state))).run disk)
      (map.insert k state) [] := by
  obtain ⟨base, log, hholds, hrep, hwf⟩ := h.files
  refine ⟨base, log ++ [(k, state)],
    hholds.append (readable_journalCiphertext henv rand key hk state), ?_, ?_⟩
  · refine hrep.append fun old hold => .inr ⟨hsup old hold, ?_⟩
    have hle := (h.entry hold).2
    rw [← hused, UInt64.le_iff_toNat_le] at hle
    exact hle
  · rintro k' state' (hlook | hlog)
    · exact hwf k' state' (.inl hlook)
    · obtain hin | hnew := List.mem_append.mp hlog
      · exact hwf k' state' (.inr hin)
      · cases List.mem_singleton.mp hnew
        exact ⟨hk, hused ▸ UInt64.le_refl _⟩

/-- A record cut short: the files still stand for the old map. -/
theorem append_torn (h : Stands env maxAge clock key disk map []) (henv : env.Lawful) (rand : Rand)
    {k : ChainKey} {state : ChainState} (hk : k.1.length = 33) {n : Nat}
    (hn : n < (frame (journalCiphertext env rand key k.1 k.2.1 state)).length) :
    ∃ torn', Stands env maxAge clock key { disk with journal := some (disk.journalBytes ++
      (frame (journalCiphertext env rand key k.1 k.2.1 state)).take n) } map torn' := by
  obtain ⟨base, log, hholds, hrest⟩ := h.files
  exact ⟨_, base, log,
    hholds.append_torn (readable_journalCiphertext henv rand key hk state) hn, hrest⟩

end Stands

/-! ## One call -/

/-- What a call that takes `map` to `store'.map` with the writes `ops` does to
the files: run to its end it leaves them standing for the new map; stopped
anywhere, for the old or the new one; stopped inside a compaction, for the new
one. -/
structure CallSpec (env : ChainEnv) (maxAge now : UInt64) (key : Key) (disk : Disk)
    (map : Dict ChainKey ChainState) (store' : ChainValidatorStore) (ops : List DiskOp) :
    Prop where
  keyKept : store'.key = key
  run : Stands env maxAge now key (runOps ops disk) store'.map []
  crash : ∀ disk', CrashIn ops disk disk' → ∃ m torn, (m = map ∨ m = store'.map) ∧
    Stands env maxAge now key disk' m torn
  midCompact : ∀ disk', MidCompact ops disk disk' →
    Stands env maxAge now key disk' store'.map []

section Calls

variable {maxAge now : UInt64} {key : Key} {disk : Disk} {store : ChainValidatorStore}

/-- A call that changes and writes nothing. -/
theorem callSpec_noop (h : Stands env maxAge now store.key disk store.map []) :
    CallSpec env maxAge now store.key disk store.map store [] where
  keyKept := rfl
  run := h
  crash := by
    intro disk' hcrash
    rw [hcrash.nil_eq]
    exact ⟨store.map, [], .inl rfl, h⟩
  midCompact := by
    rintro disk' ⟨pre, bytes, hops, _⟩
    simp at hops

theorem midCompact_compact {rand : Rand} (store : ChainValidatorStore) (pre : List DiskOp)
    {disk' : Disk} (h : MidCompact (pre ++ (compact env rand store).2) disk disk') :
    disk' = (writeSnapshot env rand store).run (runOps pre disk) := by
  obtain ⟨pre', bytes, hops, rfl⟩ := h
  have hsplit : pre ++ [writeSnapshot env rand store, DiskOp.truncateJournal] =
      pre' ++ [DiskOp.writeSnapshot bytes, .truncateJournal] := hops
  obtain ⟨rfl, hlast⟩ := List.append_inj' hsplit rfl
  cases hlast
  rw [runOps, List.foldl_append]
  rfl

/-- `compact` on a store whose map the files stand for. -/
theorem callSpec_compact {map : Dict ChainKey ChainState} (rand : Rand)
    (store : ChainValidatorStore) (h : Stands env maxAge now store.key disk store.map []) :
    CallSpec env maxAge now store.key disk map (compact env rand store).1
      (compact env rand store).2 where
  keyKept := rfl
  run := h.compact rand rfl
  crash := by
    intro disk' hcrash
    obtain ⟨torn, hstands⟩ := h.compact_crash rand rfl hcrash
    exact ⟨store.map, torn, .inr rfl, hstands⟩
  midCompact := by
    intro disk' hmid
    rw [midCompact_compact store [] hmid]
    exact h.writeSnapshot rand rfl

/-- `append_journal` with an entry that supersedes its key's: it succeeds, and
appends one whole record before any compaction. -/
theorem callSpec_appendJournal (henv : env.Lawful) (rand : Rand) (store : ChainValidatorStore)
    {map : Dict ChainKey ChainState} (h : Stands env maxAge now store.key disk map [])
    {k : ChainKey} {state : ChainState} (hmap : store.map = map.insert k state)
    (hk : k.1.length = 33) (hused : state.lastUsedUnix = now)
    (hsup : ∀ old, map.lookup k = some old → rank old < rank state) :
    let call := appendJournal env rand store k.1 k.2.1 state
    call.result = .ok () ∧ call.store.map = store.map ∧
      CallSpec env maxAge now store.key disk map call.store call.ops := by
  have hread := readable_journalCiphertext henv rand store.key hk state
  have hstands := h.append henv rand hk hused hsup
  rw [← hmap] at hstands
  have hsize : (journalCiphertext env rand store.key k.1 k.2.1 state).length < 2 ^ 32 := hread.lt
  -- the first write, torn or not yet begun, leaves the old map
  have hfirst : ∀ {ops : List DiskOp} {disk' : Disk},
      CrashIn (.appendJournal (frame (journalCiphertext env rand store.key k.1 k.2.1 state)) :: ops)
        disk disk' →
      (∃ torn, Stands env maxAge now store.key disk' map torn) ∨
        CrashIn ops ((DiskOp.appendJournal
          (frame (journalCiphertext env rand store.key k.1 k.2.1 state))).run disk) disk' := by
    intro ops disk' hcrash
    obtain rfl | hcrash | ⟨framed, n, hop, hn, rfl⟩ := hcrash.cons_cases
    · exact .inl ⟨[], h⟩
    · exact .inr hcrash
    · cases hop
      exact .inl (h.append_torn henv rand hk hn)
  simp only [appendJournal, if_pos hsize]
  split
  · -- the record that reaches the threshold
    let store' : ChainValidatorStore := { store with journalLen := store.journalLen + 1 }
    have hstands' : Stands env maxAge now store'.key
        ((DiskOp.appendJournal (frame (journalCiphertext env rand store.key k.1 k.2.1 state))).run
          disk) store'.map [] := hstands
    refine ⟨rfl, rfl, rfl, hstands'.compact rand rfl, ?_, ?_⟩
    · intro disk' hcrash
      obtain ⟨torn, hold⟩ | hcrash := hfirst hcrash
      · exact ⟨map, torn, .inl rfl, hold⟩
      · obtain ⟨torn, hnew⟩ := hstands'.compact_crash rand rfl hcrash
        exact ⟨store.map, torn, .inr rfl, hnew⟩
    · intro disk' hmid
      rw [midCompact_compact store' [.appendJournal _] hmid]
      exact hstands'.writeSnapshot rand rfl
  · refine ⟨rfl, rfl, rfl, hstands, ?_, ?_⟩
    · intro disk' hcrash
      obtain ⟨torn, hold⟩ | hcrash := hfirst hcrash
      · exact ⟨map, torn, .inl rfl, hold⟩
      · rw [hcrash.nil_eq]
        exact ⟨store.map, [], .inr rfl, hstands⟩
    · rintro disk' ⟨pre, bytes, hops, _⟩
      have hlen := congrArg List.length hops
      simp at hlen

end Calls

/-! ## Startup -/

theorem CrashIn.append_cases {ops ops' : List DiskOp} {disk' : Disk} :
    ∀ {disk : Disk}, CrashIn (ops ++ ops') disk disk' →
      CrashIn ops disk disk' ∨ CrashIn ops' (runOps ops disk) disk' := by
  induction ops with
  | nil => exact fun h => .inr h
  | cons op ops ih =>
    intro disk h
    obtain rfl | h | ⟨framed, n, rfl, hn, rfl⟩ := h.cons_cases
    · exact .inl .stop
    · exact (ih h).imp .next id
    · exact .inl (.torn hn)

/-- The files as a process finds them: untouched, or standing for `map`. -/
inductive Startable (env : ChainEnv) (maxAge clock : UInt64) (disk : Disk)
    (map : Dict ChainKey ChainState) : Bytes → Prop where
  | blank (h : Blank disk) (hempty : ∀ k, map.lookup k = none) :
      Startable env maxAge clock disk map []
  | stands {key : Key} {torn : Bytes} (h : Stands env maxAge clock key disk map torn) :
      Startable env maxAge clock disk map torn

/-- The journal is empty or begins with a whole record. -/
def CleanJournal (disk : Disk) : Prop :=
  disk.journalBytes = [] ∨ (unframe disk.journalBytes).isSome

/-- A journal with nothing torn at its end is clean. -/
theorem Startable.cleanJournal {maxAge clock : UInt64} {disk : Disk}
    {map : Dict ChainKey ChainState} (h : Startable env maxAge clock disk map []) :
    CleanJournal disk := by
  cases h with
  | blank hblank _ => exact .inl hblank.journal
  | stands hstands =>
    obtain ⟨base, log, hholds, _⟩ := hstands.files
    obtain ⟨cts, hbytes, hread⟩ := hholds.journal
    rw [List.append_nil] at hbytes
    cases cts with
    | nil => exact .inl hbytes
    | cons ct cts =>
      obtain ⟨record, _, hct, _, _⟩ := List.forall₂_cons_left_iff.mp hread
      refine .inr ?_
      rw [hbytes, frames_cons, unframe_frame_append hct.pos hct.lt]
      rfl

/-- What `load_or_create` makes of files that stand for `map`. -/
structure LoadSpec (env : ChainEnv) (maxAge nowPurge nowReplay : UInt64) (disk : Disk)
    (map : Dict ChainKey ChainState) (torn : Bytes) (store : ChainValidatorStore)
    (ops : List DiskOp) : Prop where
  run : CleanJournal disk → Stands env maxAge nowReplay store.key (runOps ops disk) store.map []
  crash : ∀ disk', CrashIn ops disk disk' → ∃ torn',
    Startable env maxAge nowReplay disk' store.map torn'
  midCompact : ∀ disk', MidCompact ops disk disk' →
    Startable env maxAge nowReplay disk' store.map torn
  live : ∀ k top, map.lookup k = some top → cut nowReplay maxAge < stamp top →
    store.map.lookup k = some top
  lookup : nowPurge = nowReplay → ∀ k, store.map.lookup k =
    (map.lookup k).filter fun e => decide (cut nowReplay maxAge < stamp e)

section Startup

variable {maxAge clock nowPurge nowReplay : UInt64} {key : Key} {disk : Disk}
  {map : Dict ChainKey ChainState} {torn : Bytes}

theorem Blank.writeKey (h : Blank disk) (env : ChainEnv) (maxAge clock : UInt64) (key : Key) :
    Stands env maxAge clock key ((DiskOp.writeKey key).run disk) ∅ [] := by
  refine ⟨∅, [], ⟨rfl, .inl ⟨h.snapshot, rfl⟩, ⟨[], h.journal, .nil⟩, rfl⟩, .empty _, ?_⟩
  rintro k state (hlook | hlog)
  · cases hlook
  · cases hlog

/-- The map that startup folds together: what `recover` reads back. -/
theorem Stands.load_map (h : Stands env maxAge clock key disk map torn) (henv : env.Lawful)
    (hpurge : clock ≤ nowPurge) (hreplay : nowPurge ≤ nowReplay) :
    ∃ map₀ loaded replayed,
      readSnapshot env key (saturatingSub nowPurge maxAge) disk.snapshot = .ok map₀ ∧
      replayJournal env key (saturatingSub nowReplay maxAge) disk.journalBytes map₀ =
        (loaded, replayed) ∧
      Stands env maxAge nowReplay key disk loaded torn ∧
      (replayed = 0 → CleanJournal disk → torn = []) ∧
      (∀ k, map.lookup k = none → loaded.lookup k = none) ∧
      (∀ k top, map.lookup k = some top → cut nowReplay maxAge < stamp top →
        loaded.lookup k = some top) ∧
      (nowPurge = nowReplay → ∀ k, loaded.lookup k =
        (map.lookup k).filter fun e => decide (cut nowReplay maxAge < stamp e)) := by
  obtain ⟨base, log, hholds, hrep, hwf⟩ := h.files
  obtain ⟨map₀, hread, hmap₀⟩ := hholds.readSnapshot_lookup henv nowPurge maxAge
  have hB : cut clock maxAge ≤ cut nowPurge maxAge := cut_mono hpurge
  have hBL : cut nowPurge maxAge ≤ cut nowReplay maxAge := cut_mono hreplay
  have hloaded : ∀ k, ((log.map recordOf).foldl (applyRecord (saturatingSub nowReplay maxAge))
      map₀).lookup k =
        (recover rank stamp (cut nowPurge maxAge) (cut nowReplay maxAge) base log).lookup k := by
    intro k
    rw [foldl_applyRecord]
    exact replay_congr rank hmap₀ k
  refine ⟨map₀, _, _, hread, rfl, ?_, ?_, ?_, ?_, ?_⟩
  · rw [hholds.journalRecords_eq]
    refine ⟨base, log, hholds, (hrep.recovered hB hBL).congr hloaded, fun k state hheld => ?_⟩
    obtain ⟨hlen, hused⟩ := hwf k state hheld
    exact ⟨hlen, UInt64.le_trans hused (UInt64.le_trans hpurge hreplay)⟩
  · -- nothing read back means the journal is the torn record alone
    intro hzero hclean
    rw [hholds.journalRecords_eq, List.length_map, List.length_eq_zero_iff] at hzero
    subst hzero
    obtain ⟨cts, hbytes, hcts⟩ := hholds.journal
    cases hcts
    rw [frames_nil, List.nil_append] at hbytes
    obtain hempty | hsome := hclean
    · exact hbytes.symm.trans hempty
    · rw [hbytes, hholds.tail] at hsome
      cases hsome
  · intro k hnone
    rw [hholds.journalRecords_eq, hloaded]
    refine Option.eq_none_iff_forall_not_mem.mpr fun e he => ?_
    obtain ⟨top, htop, _⟩ := hrep.lookup_of_recover hB hBL he
    rw [hnone] at htop
    cases htop
  · intro k top htop hlive
    rw [hholds.journalRecords_eq, hloaded]
    exact hrep.recover_live hB hBL htop hlive
  · rintro rfl k
    rw [hholds.journalRecords_eq, hloaded]
    exact hrep.lookup_recover hB k

/-- Startup, on files that stand for `map` once the key is written. -/
theorem loadOrCreate_spec_of_stands (keyOps : List DiskOp)
    (h : Stands env maxAge clock key (runOps keyOps disk) map torn) (henv : env.Lawful)
    (rand : Rand) (hpurge : clock ≤ nowPurge) (hreplay : nowPurge ≤ nowReplay)
    (hkey : loadOrCreateKey "chain-validator" disk.keyFile rand.key = .ok key)
    (hkeyOps : keyOps = if disk.keyFile.isNone then [DiskOp.writeKey key] else [])
    (hcrash : ∀ disk', CrashIn keyOps disk disk' → disk' = runOps keyOps disk ∨
      Blank disk' ∧ ∀ k, map.lookup k = none) :
    ∃ store ops, loadOrCreate env rand maxAge nowPurge nowReplay disk = .ok (store, ops) ∧
      LoadSpec env maxAge nowPurge nowReplay disk map torn store ops := by
  obtain ⟨map₀, loaded, replayed, hread, hfold, hstands, htorn, hnone, hlive, hlookup⟩ :=
    h.load_map henv hpurge hreplay
  have hsnap : (runOps keyOps disk).snapshot = disk.snapshot := by
    rw [hkeyOps]
    split <;> rfl
  have hjournal : (runOps keyOps disk).journal = disk.journal := by
    rw [hkeyOps]
    split <;> rfl
  have hbytes : (runOps keyOps disk).journalBytes = disk.journalBytes :=
    congrArg (Option.getD · []) hjournal
  rw [hsnap] at hread
  rw [hbytes] at hfold
  have hclean : replayed = 0 → CleanJournal disk → torn = [] := by
    rw [CleanJournal, hbytes] at htorn
    exact htorn
  let store : ChainValidatorStore := { key, map := loaded, journalLen := replayed }
  let createOps := if disk.journal.isNone then [DiskOp.createJournal] else []
  -- every point up to the end of `ensure_journal_durable_exists`
  have hcreated : Stands env maxAge nowReplay store.key (runOps (keyOps ++ createOps) disk)
      store.map torn := by
    rw [runOps, List.foldl_append]
    by_cases hj : disk.journal.isNone
    · simp only [createOps, if_pos hj]
      exact hstands.createJournal
    · simp only [createOps, if_neg hj]
      exact hstands
  have hbefore : ∀ disk', CrashIn (keyOps ++ createOps) disk disk' →
      ∃ torn', Startable env maxAge nowReplay disk' loaded torn' := by
    intro disk' hcr
    obtain hcr | hcr := hcr.append_cases
    · obtain rfl | ⟨hblank, hempty⟩ := hcrash disk' hcr
      · exact ⟨torn, .stands hstands⟩
      · exact ⟨[], .blank hblank fun k => hnone k (hempty k)⟩
    · by_cases hj : disk.journal.isNone
      · simp only [createOps, if_pos hj] at hcr
        obtain rfl | hcr | ⟨_, _, hop, _⟩ := hcr.cons_cases
        · exact ⟨torn, .stands hstands⟩
        · rw [hcr.nil_eq]
          exact ⟨torn, .stands hstands.createJournal⟩
        · cases hop
      · simp only [createOps, if_neg hj] at hcr
        rw [hcr.nil_eq]
        exact ⟨torn, .stands hstands⟩
  by_cases hpos : 0 < replayed
  · refine ⟨(compact env rand store).1, keyOps ++ createOps ++ (compact env rand store).2, ?_, ?_⟩
    · simp only [loadOrCreate, hkey, hread, hfold, bind, Except.bind, if_pos hpos, hkeyOps]
      rfl
    · refine ⟨fun _ => ?_, ?_, ?_, hlive, hlookup⟩
      · rw [runOps, List.foldl_append]
        exact hcreated.compact rand rfl
      · intro disk' hcr
        obtain hcr | hcr := hcr.append_cases
        · exact hbefore disk' hcr
        · obtain ⟨torn', hst⟩ := hcreated.compact_crash rand rfl hcr
          exact ⟨torn', .stands hst⟩
      · intro disk' hmid
        rw [midCompact_compact store _ hmid]
        exact .stands (hcreated.writeSnapshot rand rfl)
  · refine ⟨store, keyOps ++ createOps, ?_, ?_⟩
    · simp only [loadOrCreate, hkey, hread, hfold, bind, Except.bind, if_neg hpos, hkeyOps]
      rfl
    · refine ⟨fun hcl => ?_, hbefore, ?_, hlive, hlookup⟩
      · rw [hclean (by omega) hcl] at hcreated
        exact hcreated
      · rintro disk' ⟨pre, bytes, hops, _⟩
        have hmem : DiskOp.truncateJournal ∈ keyOps ++ createOps := by
          rw [hops]
          simp
        simp only [hkeyOps, createOps, List.mem_append] at hmem
        split at hmem <;> split at hmem <;> simp at hmem

/-- **Startup succeeds** on whatever a run left behind, and reads back the
live part of the map the files stand for. -/
theorem Startable.loadOrCreate_spec (h : Startable env maxAge clock disk map torn) (henv : env.Lawful)
    (rand : Rand) (hpurge : clock ≤ nowPurge) (hreplay : nowPurge ≤ nowReplay) :
    ∃ store ops, loadOrCreate env rand maxAge nowPurge nowReplay disk = .ok (store, ops) ∧
      LoadSpec env maxAge nowPurge nowReplay disk map torn store ops := by
  cases h with
  | blank hblank hempty =>
    have hnone : disk.keyFile.isNone = true := by rw [hblank.keyFile]; rfl
    have hstands := hblank.writeKey env maxAge clock rand.key
    obtain ⟨base, log, hholds, hrep, hwf⟩ := hstands.files
    refine loadOrCreate_spec_of_stands [.writeKey rand.key]
      ⟨base, log, hholds, hrep.congr hempty, hwf⟩ henv rand hpurge hreplay ?_ ?_ ?_
    · rw [hblank.keyFile]
      rfl
    · rw [if_pos hnone]
    · intro disk' hcrash
      obtain rfl | hcrash | ⟨_, _, hop, _⟩ := hcrash.cons_cases
      · exact .inr ⟨hblank, hempty⟩
      · exact .inl hcrash.nil_eq
      · cases hop
  | @stands key _ hstands =>
    obtain ⟨base, log, hholds, _⟩ := hstands.files
    have hsome : ¬ disk.keyFile.isNone = true := by rw [hholds.keyFile]; simp
    refine loadOrCreate_spec_of_stands [] hstands henv rand hpurge hreplay ?_ ?_ ?_
    · rw [hholds.keyFile, loadOrCreateKey]
      exact dif_pos key.2
    · rw [if_neg hsome]
    · exact fun disk' hcrash => .inl hcrash.nil_eq

end Startup

end Pizzini.Relay
