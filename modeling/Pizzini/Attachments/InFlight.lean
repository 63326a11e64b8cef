import Pizzini.Lib.Totals
import Pizzini.Attachments.CompletedFiles

/-!
# Unfinished attachments on disk (`AttachmentReassembler.swift:75–108, 155–302`)

Each reassembler caps what it holds unfinished, by its own table: 256 MiB in all, 32 transfers
for a peer, 24 hours for each. The staged files are on disk, where the other reassembler's are
too, and where they stay when the app ends and the tables go.

`Staging` keeps beside the store which staging files there are, and for whose transfer, and
`Bounded` says the caps of the disk. What a chunk does to a table and to the sums over both is
here; that the tables account for the disk is in `DiskAccounts`.
-/

namespace Pizzini.Attachments

open Wire FileChunkEnvelope AttachmentReassembler Runs

/-- Putting a file together touches that file and the staged chunks only. -/
theorem lookup_finalize_ne {F : Foundation} {entry : Pending} {dir dir' : Directory}
    {c : Completion} (h : finalize F entry dir = (.ok c, dir')) {name : String}
    (hurl : name ≠ c.url.2) (hstaged : ∀ i < entry.chunkCount, name ≠ chunkName i) :
    dir'.lookup name = dir.lookup name := by
  simp only [finalize] at h
  generalize happend : appendChunks _ _ _ _ = out at h
  obtain ⟨written, out⟩ := out
  cases written with
  | none => cases h
  | some written =>
    simp only at h
    split at h
    · cases h
    · cases h
      have hnot : name ∉ (List.range entry.chunkCount).map chunkName := by
        intro hmem
        obtain ⟨i, hi, hsame⟩ := List.mem_map.mp hmem
        exact hstaged i (List.mem_range.mp hi) hsame.symm
      have hout := congrArg (fun x => x.2.lookup name) happend
      simp only [lookup_appendChunks_ne hurl, AList.lookup_insert_ne hurl] at hout
      rw [lookup_removeChunks, if_neg hnot, ← hout]

/-! ## The staged files -/

namespace Store

/-- What both reassemblers have in flight. -/
def inFlightBytes (s : Store) : Nat :=
  (s.tables .direct).inFlightBytes + (s.tables .group).inFlightBytes

/-- A peer's transfers in both tables. -/
def inFlightForPeer (s : Store) (peer : Bytes) : Nat :=
  (s.tables .direct).inFlightForPeer peer + (s.tables .group).inFlightForPeer peer

/-- A chunk that comes in opens its attachment, though it may be refused after that. -/
def opens (s : Store) (now : Int) (role : Role) (peer : Bytes) (e : FileChunkEnvelope) : Bool :=
  let slot := ((s.tables role).slot s.sandbox peer e.attachmentId).reap now
  slot.completedAt.isNone && slot.entry.isNone
    && (s.tables role).inFlightForPeer peer < perPeerPendingCap

end Store

/-- The transfer that a file is staged for, but for its attachment id. -/
structure Opened where
  role : Role
  peer : Bytes
  openedAt : Int
  deriving DecidableEq

/-- The app, and what is staged under each id and index. -/
structure Staging where
  store : Store
  staged : AttachmentId → Nat → Option Opened

namespace Staging

variable (F : Foundation)

/-- What is staged under an attachment's id once a chunk of it is written; `entry` has the
chunk on record. -/
def written (role : Role) (peer : Bytes) (e : FileChunkEnvelope) (entry : Pending)
    (dir : Directory) (staged : Nat → Option Opened) : Nat → Option Opened :=
  if entry.receivedIndices.card = entry.chunkCount then
    match finalize F entry (dir.insert (chunkName e.chunkIndex) e.chunkBytes) with
    | (.ok c, _) => fun i =>
      -- the staged files are removed, and the file put together may replace another
      if i < entry.chunkCount ∨ chunkName i = c.url.2 then none else staged i
    | (.error _, _) => fun _ => none
  else Function.update staged e.chunkIndex (some ⟨role, peer, entry.firstSeenAt⟩)

/-- What is staged after a step. -/
def restaged (w : Staging) : Life → AttachmentId → Nat → Option Opened
  | .event ⟨now, .feed role peer e⟩ =>
    match w.store.takes F now role peer e with
    | none => w.staged
    | some entry => Function.update w.staged e.attachmentId
        (written F role peer e entry (w.store.sandbox e.attachmentId) (w.staged e.attachmentId))
  | .event ⟨_, .discard _ _ a⟩ => Function.update w.staged a fun _ => none
  | .event ⟨now, .reap⟩ => fun a =>
    if a ∈ ((w.store.tables .direct).staleEntries now ++
        (w.store.tables .group).staleEntries now).map Prod.snd then fun _ => none
    else w.staged a
  | .relaunch => w.staged

/-- One step. -/
def step (w : Staging) (l : Life) : Staging := ⟨w.store.live F l, w.restaged F l⟩

/-- The size of the file staged under an id and an index. -/
def size (w : Staging) (a : AttachmentId) (i : Nat) : Nat :=
  (((w.store.sandbox a).lookup (chunkName i)).map List.length).getD 0

/-- A peer's transfer is unfinished: it is in a table, or has a file on disk. -/
def Unfinished (w : Staging) (peer : Bytes) (role : Role) (a : AttachmentId) : Prop :=
  ((w.store.tables role).pending.lookup (tableKey peer a)).isSome ∨
    ∃ i t, w.staged a i = some ⟨role, peer, t⟩

/-- The caps, on disk. -/
structure Bounded (w : Staging) : Prop where
  /-- staged files come to no more than the budget, whichever one adds up -/
  bytes : ∀ T : Finset (AttachmentId × Nat), (∀ x ∈ T, (w.staged x.1 x.2).isSome) →
    ∑ x ∈ T, w.size x.1 x.2 ≤ globalInFlightByteBudget
  peers : ∀ peer, ∀ T : Finset (Role × AttachmentId),
    (∀ x ∈ T, w.Unfinished peer x.1 x.2) → T.card ≤ perPeerPendingCap
  /-- the next walk, whenever it is, leaves no file staged whose time is over -/
  removed : ∀ now a i o, (w.step F (.event ⟨now, .reap⟩)).staged a i = some o →
    now ≤ o.openedAt + partialTTL

/-- A step that keeps what both tables hold within the caps, and loses track of no file. -/
def Clean (w : Staging) : Life → Prop
  | .event ⟨now, .feed role peer e⟩ =>
    (w.store.opens now role peer e → w.store.inFlightForPeer peer < perPeerPendingCap) ∧
    ((w.store.takes F now role peer e).isSome →
      w.store.inFlightBytes + e.chunkBytes.length ≤ globalInFlightByteBudget)
  | .event _ => True
  | .relaunch => ∀ a i, w.staged a i = none

end Staging

/-! ## What a chunk does to the table -/

namespace AttachmentReassembler

variable {F : Foundation} {now : Int} {peer : Bytes} {forPeer inFlight : Nat}
  {e : FileChunkEnvelope} {entry : Pending} {slot : Slot}

/-- A chunk that gets written has passed the checks, against the entry it met or opened. -/
theorem of_taken (h : taken F now peer forPeer inFlight e slot = some entry) :
    ∃ old, entry = old.receive e ∧ refusal F inFlight old e = none ∧ slot.completedAt = none ∧
      (slot.entry = some old ∨
        slot.entry = none ∧ forPeer < perPeerPendingCap ∧ old = newEntry now peer e) := by
  rw [taken] at h
  by_cases hdone : slot.completedAt.isSome
  · rw [if_pos hdone] at h
    cases h
  rw [if_neg hdone] at h
  have hdone : slot.completedAt = none := Option.not_isSome_iff_eq_none.mp hdone
  cases hentry : slot.entry with
  | some old =>
    simp only [hentry] at h
    split at h
    · next hpass =>
      cases h
      exact ⟨old, rfl, Option.isNone_iff_eq_none.mp hpass, hdone, .inl rfl⟩
    · cases h
  | none =>
    simp only [hentry] at h
    split at h
    · cases h
    · next hcap =>
      split at h
      · next hpass =>
        cases h
        exact ⟨_, rfl, Option.isNone_iff_eq_none.mp hpass, hdone,
          .inr ⟨rfl, Nat.lt_of_not_le hcap, rfl⟩⟩
      · cases h

theorem refusal_eq_none (h : refusal F inFlight entry e = none) :
    entry.chunkCount = e.chunkCount ∧ e.chunkIndex < e.chunkCount ∧
      e.chunkIndex ∉ entry.receivedIndices := by
  rw [refusal] at h
  by_cases hsame : entry.totalSize = e.totalSize ∧ entry.chunkCount = e.chunkCount
      ∧ sameText F entry.claimedFilename e.filename ∧ sameText F entry.claimedMime e.mime
  · rw [if_neg (not_not.mpr hsame)] at h
    by_cases hidx : e.chunkCount ≤ e.chunkIndex
    · rw [if_pos hidx] at h
      cases h
    · rw [if_neg hidx] at h
      by_cases hdup : e.chunkIndex ∈ entry.receivedIndices
      · rw [if_pos hdup] at h
        cases h
      · exact ⟨hsame.2.1, Nat.lt_of_not_le hidx, hdup⟩
  · rw [if_pos hsame] at h
    cases h

/-- The entry after a chunk. -/
theorem feedSlot_entry :
    (feedSlot F now peer forPeer inFlight e slot).2.entry =
      match taken F now peer forPeer inFlight e slot with
      | some entry => if entry.receivedIndices.card = entry.chunkCount then none else some entry
      | none =>
        if slot.completedAt.isNone && slot.entry.isNone && forPeer < perPeerPendingCap then
          some (newEntry now peer e)
        else slot.entry := by
  have hfeed : ∀ old, (feedEntry F now inFlight old e slot).2.entry =
      match (if (refusal F inFlight old e).isNone then some (old.receive e) else none) with
      | some entry => if entry.receivedIndices.card = entry.chunkCount then none else some entry
      | none => some old := by
    intro old
    rw [feedEntry]
    cases refusal F inFlight old e with
    | some reason => rfl
    | none =>
      simp only [Option.isNone_none, if_true]
      split
      · split <;> rfl
      · rfl
  rw [feedSlot, taken]
  by_cases hdone : slot.completedAt.isSome
  · rw [if_pos hdone, if_pos hdone]
    simp [Option.isSome_iff_ne_none.mp hdone]
  · rw [if_neg hdone, if_neg hdone]
    have hdone : slot.completedAt = none := Option.not_isSome_iff_eq_none.mp hdone
    cases hentry : slot.entry with
    | some old =>
      simp only [hfeed, hdone, Option.isNone_none, Option.isNone_some, Bool.and_false,
        Bool.false_and, Bool.false_eq_true, if_false]
    | none =>
      by_cases hcap : perPeerPendingCap ≤ forPeer
      · simp [if_pos hcap, hentry, Nat.not_lt.mpr hcap]
      · simp only [if_neg hcap, hfeed, hdone, Option.isNone_none, Bool.true_and,
          decide_eq_true (Nat.lt_of_not_le hcap), if_true]

end AttachmentReassembler

/-- The entry under a chunk's key once the chunk has come in. -/
def Store.entryAfter (F : Foundation) (s : Store) (now : Int) (role : Role) (peer : Bytes)
    (e : FileChunkEnvelope) : Option Pending :=
  match s.takes F now role peer e with
  | some entry => if entry.receivedIndices.card = entry.chunkCount then none else some entry
  | none =>
    if s.opens now role peer e then some (newEntry now peer e)
    else (s.tables role).pending.lookup (tableKey peer e.attachmentId)

variable {F : Foundation} {s : Store} {now : Int} {role role' : Role} {peer : Bytes}
  {e : FileChunkEnvelope} {entry : Pending}

theorem pending_feed :
    ((s.tables role).feed F s.sandbox now peer e).2.1.pending =
      (s.tables role).pending.put (tableKey peer e.attachmentId)
        (s.entryAfter F now role peer e) := by
  have hentry : (feedSlot F now peer ((s.tables role).inFlightForPeer peer)
      (s.tables role).inFlightBytes e
      (((s.tables role).slot s.sandbox peer e.attachmentId).reap now)).2.entry = _ :=
    feedSlot_entry
  exact congrArg ((s.tables role).pending.put (tableKey peer e.attachmentId)) hentry

/-- A chunk changes one entry of one table. -/
theorem lookup_live_feed {key : Bytes} :
    ((s.live F (.event ⟨now, .feed role peer e⟩)).tables role').pending.lookup key =
      if role' = role ∧ key = tableKey peer e.attachmentId then s.entryAfter F now role peer e
      else (s.tables role').pending.lookup key := by
  by_cases hrole : role' = role
  · subst hrole
    have htables : (s.live F (.event ⟨now, .feed role' peer e⟩)).tables role' =
        ((s.tables role').feed F s.sandbox now peer e).2.1 := Function.update_self ..
    rw [htables, pending_feed, AList.lookup_put]
    simp only [true_and]
  · have htables : (s.live F (.event ⟨now, .feed role peer e⟩)).tables role' = s.tables role' :=
      Store.tables_set_ne hrole _
    rw [htables, if_neg fun h => hrole h.1]

/-- The entry that a chunk which gets written was checked against, and that it leaves. -/
theorem Store.of_takes (h : s.takes F now role peer e = some entry) :
    ∃ old, entry = old.receive e ∧ refusal F (s.tables role).inFlightBytes old e = none ∧
      ((s.tables role).pending.lookup (tableKey peer e.attachmentId) = some old ∨
        (s.tables role).pending.lookup (tableKey peer e.attachmentId) = none ∧
          s.opens now role peer e = true ∧ old = newEntry now peer e) := by
  obtain ⟨old, heq, hpass, hdone, hold⟩ := of_taken h
  refine ⟨old, heq, hpass, hold.imp id fun ⟨hnone, hcap, hnew⟩ => ⟨hnone, ?_, hnew⟩⟩
  simp only [Store.opens, hdone, hnone, Option.isNone_none, Bool.true_and, decide_eq_true_eq]
  exact hcap

theorem Store.opens_lookup (h : s.opens now role peer e = true) :
    (s.tables role).pending.lookup (tableKey peer e.attachmentId) = none := by
  simp only [Store.opens, Bool.and_eq_true, Option.isNone_iff_eq_none] at h
  exact h.1.2

/-! ## The tables' sums -/

theorem Store.inFlightBytes_set (s : Store) (role : Role) (new : AttachmentReassembler × Sandbox) :
    (s.set role new).inFlightBytes + (s.tables role).inFlightBytes =
      s.inFlightBytes + new.1.inFlightBytes := by
  cases role with
  | direct => simp [Store.set, Store.inFlightBytes]; omega
  | group => simp [Store.set, Store.inFlightBytes]; omega

theorem Store.inFlightForPeer_set (s : Store) (role : Role)
    (new : AttachmentReassembler × Sandbox) (peer : Bytes) :
    (s.set role new).inFlightForPeer peer + (s.tables role).inFlightForPeer peer =
      s.inFlightForPeer peer + new.1.inFlightForPeer peer := by
  cases role with
  | direct => simp [Store.set, Store.inFlightForPeer]; omega
  | group => simp [Store.set, Store.inFlightForPeer]; omega

theorem inFlightForPeer_eq_total (r : AttachmentReassembler) (q : Bytes) :
    r.inFlightForPeer q = r.pending.total fun _ p => if p.peer = q then 1 else 0 := by
  rw [inFlightForPeer, AList.len_retain_eq_total]
  simp only [decide_eq_true_eq]

/-- What a chunk does to the sums. -/
theorem Store.inFlightBytes_feed (F : Foundation) (s : Store) (now : Int) (role : Role)
    (peer : Bytes) (e : FileChunkEnvelope) :
    (s.live F (.event ⟨now, .feed role peer e⟩)).inFlightBytes +
        (((s.tables role).pending.lookup (tableKey peer e.attachmentId)).map
          fun p => p.bytesWritten).getD 0 =
      s.inFlightBytes + ((s.entryAfter F now role peer e).map fun p => p.bytesWritten).getD 0 := by
  have hset := s.inFlightBytes_set role ((s.tables role).feed F s.sandbox now peer e).2
  have hput := AList.total_put (fun _ p => p.bytesWritten) (s.tables role).pending
    (tableKey peer e.attachmentId) (s.entryAfter F now role peer e)
  rw [← pending_feed] at hput
  have hsum : ∀ r : AttachmentReassembler,
      r.pending.total (fun _ p => p.bytesWritten) = r.inFlightBytes := fun _ => rfl
  rw [hsum, hsum] at hput
  show (s.set role ((s.tables role).feed F s.sandbox now peer e).2).inFlightBytes + _ = _
  omega

/-- What a chunk does to the peers' numbers of transfers. -/
theorem Store.inFlightForPeer_feed (F : Foundation) (s : Store) (now : Int) (role : Role)
    (peer : Bytes) (e : FileChunkEnvelope) (q : Bytes) :
    (s.live F (.event ⟨now, .feed role peer e⟩)).inFlightForPeer q +
        (((s.tables role).pending.lookup (tableKey peer e.attachmentId)).map
          fun p => if p.peer = q then 1 else 0).getD 0 =
      s.inFlightForPeer q +
        ((s.entryAfter F now role peer e).map fun p => if p.peer = q then 1 else 0).getD 0 := by
  have hset := s.inFlightForPeer_set role ((s.tables role).feed F s.sandbox now peer e).2 q
  have hput := AList.total_put (fun _ p => if p.peer = q then 1 else 0) (s.tables role).pending
    (tableKey peer e.attachmentId) (s.entryAfter F now role peer e)
  rw [← pending_feed] at hput
  rw [← inFlightForPeer_eq_total, ← inFlightForPeer_eq_total] at hput
  show (s.set role ((s.tables role).feed F s.sandbox now peer e).2).inFlightForPeer q + _ = _
  omega

/-- Discarding transfers one after the other, as the walk does. -/
theorem Store.inFlightBytes_discardAll (stale : List (Bytes × AttachmentId)) :
    (s.set role (discardAll (s.tables role) s.sandbox stale)).inFlightBytes ≤ s.inFlightBytes := by
  have hset := s.inFlightBytes_set role (discardAll (s.tables role) s.sandbox stale)
  have hle : (discardAll (s.tables role) s.sandbox stale).1.inFlightBytes ≤
      (s.tables role).inFlightBytes := by
    show (discardAll _ _ stale).1.pending.total (fun _ p => p.bytesWritten) ≤
      (s.tables role).pending.total fun _ p => p.bytesWritten
    refine AList.total_le fun key p hp => ?_
    rw [lookup_discardAll] at hp
    split at hp
    · cases hp
    · exact ⟨p, hp, Nat.le_refl _⟩
  omega

theorem Store.inFlightForPeer_discardAll (stale : List (Bytes × AttachmentId)) (q : Bytes) :
    (s.set role (discardAll (s.tables role) s.sandbox stale)).inFlightForPeer q ≤
      s.inFlightForPeer q := by
  have hset := s.inFlightForPeer_set role (discardAll (s.tables role) s.sandbox stale) q
  have hle : (discardAll (s.tables role) s.sandbox stale).1.inFlightForPeer q ≤
      (s.tables role).inFlightForPeer q := by
    rw [inFlightForPeer_eq_total, inFlightForPeer_eq_total]
    refine AList.total_le fun key p hp => ?_
    rw [lookup_discardAll] at hp
    split at hp
    · cases hp
    · exact ⟨p, hp, Nat.le_refl _⟩
  omega

end Pizzini.Attachments
