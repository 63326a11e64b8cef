import Pizzini.Chat.RowStatus

/-!
# The roll-ups of an attachment (`Outbox.swift:404–475`)

Three functions sum up the chunks of an attachment, each with its own order of cases:
`attachmentStatus` by the chunks' status, `attachmentChunkCounts` by counting, and
`attachmentInputs` by the stamps themselves. The status of a chunk looks at `deliveredAt`
first, `attachmentInputs` at `failedAt`; so they part on a chunk that has both, which is one
whose acknowledgement came after its time was up. And `attachmentInputs` gives a chunk that
was relayed no time to expire, where the row of the chunk itself has one.

`rollupsAgree_iff` says that there is nothing else.
-/

namespace Pizzini.Chat

open Pizzini.Attachments (AttachmentId)

/-- The class of an `Outbox` tier. -/
def ChatRowStatusInputs.Outbox.tier : ChatRowStatusInputs.Outbox → Status
  | .pending _ _ => .pending
  | .relayed => .relayed
  | .delivered => .delivered
  | .failed => .failed

/-- The result of `attachmentChunkCounts`. -/
structure ChunkCounts where
  total : Nat
  pending : Nat
  relayed : Nat
  delivered : Nat
  failed : Nat
deriving DecidableEq, Repr

/-- The worst class with a chunk in it. -/
def ChunkCounts.worst (c : ChunkCounts) : Option Status :=
  if 0 < c.failed then some .failed
  else if 0 < c.pending then some .pending
  else if 0 < c.relayed then some .relayed
  else if 0 < c.delivered then some .delivered
  else none

namespace Outbox

/-- One turn of the loop of `attachmentChunkCounts`. -/
def countChunk (n : ChunkCounts) (c : OutboxEntry) : ChunkCounts :=
  if c.deliveredAt.isSome then { n with delivered := n.delivered + 1 }
  else if c.failedAt.isSome then { n with failed := n.failed + 1 }
  else if c.relayedAt.isSome then { n with relayed := n.relayed + 1 }
  else { n with pending := n.pending + 1 }

/-- `attachmentChunkCounts(forId:)` (Outbox.swift:398). -/
def attachmentChunkCounts (outbox : Outbox) (attachmentId : AttachmentId) : ChunkCounts :=
  let chunks := outbox.chunksOf attachmentId
  let n := chunks.foldl countChunk ⟨0, 0, 0, 0, 0⟩
  { n with total := (chunks.head?.bind OutboxEntry.chunkCount).getD chunks.length }

/-- `min(by: { $0.sentAt < $1.sentAt })`. -/
def oldest : List OutboxEntry → Option OutboxEntry
  | [] => none
  | e :: es => some (es.foldl (fun first e => if e.sentAt < first.sentAt then e else first) e)

/-- `attachmentInputs(forId:now:peerHasRead:)` (Outbox.swift:426). -/
def attachmentInputs (outbox : Outbox) (attachmentId : AttachmentId) (now : Int)
    (peerHasRead : Bool) : Option ChatRowStatusInputs :=
  let chunks := outbox.chunksOf attachmentId
  if chunks.isEmpty then none
  else if chunks.any fun e => e.failedAt.isSome then some ⟨.failed, .unread, .active⟩
  else
    match oldest (chunks.filter fun e =>
      e.deliveredAt.isNone && e.relayedAt.isNone && e.failedAt.isNone) with
    | some e =>
      some
        { outbox := .pending (now - e.sentAt) (decide (OutboxEntry.maxRetries ≤ e.retries))
          ack := .unread
          ttl := if e.hasExpired now then .expired else .active }
    | none =>
      if chunks.any fun e => e.deliveredAt.isNone then some ⟨.relayed, .unread, .active⟩
      else some ⟨.delivered, if peerHasRead then .read else .unread, .active⟩

/-- The roll-ups of the attachment agree: `attachmentInputs` with `attachmentStatus`, the counts
with both, and the glyph of a single chunk with that of its own row. -/
structure RollupsAgree (outbox : Outbox) (attachmentId : AttachmentId) (now : Int)
    (peerHasRead : Bool) : Prop where
  tier : (outbox.attachmentInputs attachmentId now peerHasRead).map (fun i => i.outbox.tier) =
    outbox.attachmentStatus attachmentId
  counts : (outbox.attachmentChunkCounts attachmentId).pending +
      (outbox.attachmentChunkCounts attachmentId).relayed +
      (outbox.attachmentChunkCounts attachmentId).delivered +
      (outbox.attachmentChunkCounts attachmentId).failed =
    (outbox.chunksOf attachmentId).length
  worst : (outbox.attachmentChunkCounts attachmentId).worst = outbox.attachmentStatus attachmentId
  single : ∀ e, outbox.chunksOf attachmentId = [e] → e.chunkCount = some 1 →
    (outbox.attachmentInputs attachmentId now peerHasRead).map rowStatus =
      some (rowStatus (.fromEntry e now peerHasRead))

/-- A chunk that has failed stands for the attachment as failed: if all of those were
acknowledged after they had failed, none does. -/
def FailureStands (outbox : Outbox) (attachmentId : AttachmentId) : Prop :=
  (∃ e ∈ outbox.chunksOf attachmentId, e.failedAt.isSome) →
    ∃ e ∈ outbox.chunksOf attachmentId, e.status = .failed

/-- No relayed single chunk is past its time, waiting for the walk that fails it. -/
def NoneOverdue (outbox : Outbox) (attachmentId : AttachmentId) (now : Int) : Prop :=
  ∀ e, outbox.chunksOf attachmentId = [e] → e.chunkCount = some 1 → e.status = .relayed →
    ¬e.ttl < now - e.sentAt

end Outbox

/-! ## The status of one chunk -/

namespace OutboxEntry

variable {e : OutboxEntry}

theorem status_eq_failed_iff :
    e.status = .failed ↔ e.deliveredAt = none ∧ e.failedAt.isSome := by
  rw [status]
  cases e.deliveredAt <;> cases e.failedAt <;> cases e.relayedAt <;> simp

theorem status_eq_relayed_iff :
    e.status = .relayed ↔ e.deliveredAt = none ∧ e.failedAt = none ∧ e.relayedAt.isSome := by
  rw [status]
  cases e.deliveredAt <;> cases e.failedAt <;> cases e.relayedAt <;> simp

end OutboxEntry

namespace Outbox

variable {outbox : Outbox} {attachmentId : AttachmentId} {now : Int} {peerHasRead : Bool}
  {es : List OutboxEntry} {e : OutboxEntry}

/-! ## Counting -/

/-- The count of a status. -/
def countOf (es : List OutboxEntry) (s : Status) : Nat := es.countP fun e => e.status = s

/-- The loop counts the chunks by their status. -/
theorem foldl_countChunk (es : List OutboxEntry) (n : ChunkCounts) :
    es.foldl countChunk n =
      { total := n.total
        pending := n.pending + countOf es .pending
        relayed := n.relayed + countOf es .relayed
        delivered := n.delivered + countOf es .delivered
        failed := n.failed + countOf es .failed } := by
  induction es generalizing n with
  | nil => rfl
  | cons e es ih =>
    have hturn : countChunk n e =
        { total := n.total
          pending := n.pending + if e.status = .pending then 1 else 0
          relayed := n.relayed + if e.status = .relayed then 1 else 0
          delivered := n.delivered + if e.status = .delivered then 1 else 0
          failed := n.failed + if e.status = .failed then 1 else 0 } := by
      rw [countChunk, OutboxEntry.status]
      cases e.deliveredAt <;> cases e.failedAt <;> cases e.relayedAt <;> rfl
    rw [List.foldl_cons, ih, hturn]
    simp only [countOf, List.countP_cons, decide_eq_true_eq, Nat.add_assoc, Nat.add_comm]

/-- Every chunk is in one of the four classes. -/
theorem countOf_sum (es : List OutboxEntry) :
    countOf es .pending + countOf es .relayed + countOf es .delivered + countOf es .failed =
      es.length := by
  induction es with
  | nil => rfl
  | cons e es ih =>
    simp only [countOf, List.countP_cons, List.length_cons] at ih ⊢
    cases hstatus : e.status with
    | pending =>
      simp
      omega
    | relayed =>
      simp
      omega
    | delivered =>
      simp
      omega
    | failed =>
      simp
      omega

theorem countOf_pos_iff {s : Status} : 0 < countOf es s ↔ ∃ e ∈ es, e.status = s := by
  rw [countOf, List.countP_pos_iff]
  simp

/-- What the counts are, by status. -/
theorem attachmentChunkCounts_eq (outbox : Outbox) (attachmentId : AttachmentId) :
    outbox.attachmentChunkCounts attachmentId =
      { total := ((outbox.chunksOf attachmentId).head?.bind OutboxEntry.chunkCount).getD
          (outbox.chunksOf attachmentId).length
        pending := countOf (outbox.chunksOf attachmentId) .pending
        relayed := countOf (outbox.chunksOf attachmentId) .relayed
        delivered := countOf (outbox.chunksOf attachmentId) .delivered
        failed := countOf (outbox.chunksOf attachmentId) .failed } := by
  rw [attachmentChunkCounts, foldl_countChunk]
  simp

theorem any_status (es : List OutboxEntry) (s : Status) :
    (es.any fun e => e.status = s) = decide (0 < countOf es s) := by
  rw [Bool.eq_iff_iff, List.any_eq_true, decide_eq_true_eq, countOf_pos_iff]
  simp

/-- The counts say what the status says. -/
theorem worst_attachmentChunkCounts (outbox : Outbox) (attachmentId : AttachmentId) :
    (outbox.attachmentChunkCounts attachmentId).worst = outbox.attachmentStatus attachmentId := by
  have hsum := countOf_sum (outbox.chunksOf attachmentId)
  rw [attachmentChunkCounts_eq, attachmentStatus, rollUp, any_status, any_status, any_status,
    ChunkCounts.worst]
  simp only [decide_eq_true_eq, List.isEmpty_iff_length_eq_zero]
  by_cases hempty : (outbox.chunksOf attachmentId).length = 0
  · rw [if_pos hempty, if_neg (by omega), if_neg (by omega), if_neg (by omega), if_neg (by omega)]
  · rw [if_neg hempty]
    split
    · rfl
    · split
      · rfl
      · split
        · rfl
        · rw [if_pos (by omega)]

/-! ## The inputs -/

theorem oldest_mem (h : oldest es = some e) : e ∈ es := by
  cases es with
  | nil => cases h
  | cons e₀ es =>
    cases h
    -- the turn keeps the entry so far or takes the next
    induction es generalizing e₀ with
    | nil => exact List.mem_singleton_self _
    | cons e₁ es ih =>
      rw [List.foldl_cons]
      split
      · exact List.mem_cons_of_mem _ (ih e₁)
      · rcases List.mem_cons.mp (ih e₀) with heq | hmem
        · rw [heq]
          exact List.mem_cons_self
        · exact List.mem_cons_of_mem _ (List.mem_cons_of_mem _ hmem)

theorem oldest_eq_none_iff : oldest es = none ↔ es = [] := by
  cases es with
  | nil => exact iff_of_true rfl rfl
  | cons e es => exact iff_of_false nofun nofun

/-- A failed chunk comes first, acknowledged or not. -/
theorem tier_of_failed (h : ∃ e ∈ outbox.chunksOf attachmentId, e.failedAt.isSome) :
    (outbox.attachmentInputs attachmentId now peerHasRead).map (fun i => i.outbox.tier) =
      some .failed := by
  obtain ⟨e, he, hfailed⟩ := h
  have hne : (outbox.chunksOf attachmentId).isEmpty = false := by
    rw [List.isEmpty_eq_false_iff_exists_mem]
    exact ⟨e, he⟩
  have hany : ((outbox.chunksOf attachmentId).any fun e => e.failedAt.isSome) = true :=
    List.any_eq_true.mpr ⟨e, he, hfailed⟩
  simp [attachmentInputs, hne, hany, ChatRowStatusInputs.Outbox.tier]

/-- Where no chunk has failed, the stamps give the status. -/
theorem tier_of_none_failed (h : ∀ e ∈ outbox.chunksOf attachmentId, e.failedAt = none) :
    (outbox.attachmentInputs attachmentId now peerHasRead).map (fun i => i.outbox.tier) =
      outbox.attachmentStatus attachmentId := by
  unfold attachmentInputs attachmentStatus rollUp
  generalize outbox.chunksOf attachmentId = chunks at h ⊢
  have hany : (chunks.any fun e => e.failedAt.isSome) = false := by
    rw [List.any_eq_false]
    intro e he
    simp [h e he]
  have hfailed : (chunks.any fun e => e.status = .failed) = false := by
    rw [List.any_eq_false]
    intro e he
    simp [OutboxEntry.status_eq_failed_iff, h e he]
  by_cases hempty : chunks.isEmpty = true
  · simp only [if_pos hempty, Option.map_none]
  · simp only [if_neg hempty, hany, hfailed, Bool.false_eq_true, if_false]
    cases holdest : oldest (chunks.filter fun e =>
        e.deliveredAt.isNone && e.relayedAt.isNone && e.failedAt.isNone) with
    | some e =>
      obtain ⟨he, hstamps⟩ := List.mem_filter.mp (oldest_mem holdest)
      have hpending : (chunks.any fun e => e.status = .pending) = true := by
        rw [List.any_eq_true]
        refine ⟨e, he, decide_eq_true (OutboxEntry.status_eq_pending_iff.mpr ?_)⟩
        simp only [Bool.and_eq_true, Option.isNone_iff_eq_none] at hstamps
        exact ⟨hstamps.1.1, hstamps.2, hstamps.1.2⟩
      rw [if_pos hpending]
      rfl
    | none =>
      have hno := List.filter_eq_nil_iff.mp (oldest_eq_none_iff.mp holdest)
      have hpending : ∀ e ∈ chunks, e.status ≠ .pending := by
        intro e he hpending
        obtain ⟨hdelivered, -, hrelayed⟩ := OutboxEntry.status_eq_pending_iff.mp hpending
        exact hno e he (by simp [hdelivered, hrelayed, h e he])
      have hrelayed : (chunks.any fun e => e.deliveredAt.isNone) =
          chunks.any fun e => e.status = .relayed := by
        rw [Bool.eq_iff_iff, List.any_eq_true, List.any_eq_true]
        refine exists_congr fun e => and_congr_right fun he => ?_
        rw [decide_eq_true_eq, Option.isNone_iff_eq_none, OutboxEntry.status_eq_relayed_iff]
        refine ⟨fun hdelivered => ⟨hdelivered, h e he, ?_⟩, fun hstatus => hstatus.1⟩
        by_contra hnone
        refine hpending e he (OutboxEntry.status_eq_pending_iff.mpr ⟨hdelivered, h e he, ?_⟩)
        simpa using hnone
      have hnone : (chunks.any fun e => e.status = .pending) = false := by
        rw [List.any_eq_false]
        intro e he
        simp [hpending e he]
      simp only [hrelayed, hnone, Bool.false_eq_true, if_false]
      split
      · rfl
      · rfl

/-- The failures are all that the tier and the status can differ on. -/
theorem tier_eq_status_iff :
    (outbox.attachmentInputs attachmentId now peerHasRead).map (fun i => i.outbox.tier) =
      outbox.attachmentStatus attachmentId ↔ outbox.FailureStands attachmentId := by
  by_cases hfailed : ∃ e ∈ outbox.chunksOf attachmentId, e.failedAt.isSome
  · rw [tier_of_failed hfailed, FailureStands, ← countOf_pos_iff]
    obtain ⟨e, he, -⟩ := id hfailed
    have hne : (outbox.chunksOf attachmentId).isEmpty = false := by
      rw [List.isEmpty_eq_false_iff_exists_mem]
      exact ⟨e, he⟩
    rw [attachmentStatus, rollUp, hne, any_status, any_status, any_status]
    simp only [Bool.false_eq_true, if_false, decide_eq_true_eq]
    by_cases hpos : 0 < countOf (outbox.chunksOf attachmentId) .failed
    · rw [if_pos hpos]
      exact iff_of_true rfl fun _ => hpos
    · rw [if_neg hpos]
      refine iff_of_false ?_ fun hstands => hpos (hstands hfailed)
      split
      · nofun
      · split <;> nofun
  · refine iff_of_true (tier_of_none_failed fun e he => ?_) fun h => absurd h hfailed
    by_contra hne
    exact hfailed ⟨e, he, Option.isSome_iff_ne_none.mpr hne⟩

/-! ## A single chunk -/

theorem FailureStands.single (h : outbox.FailureStands attachmentId)
    (hchunks : outbox.chunksOf attachmentId = [e]) : e.deliveredAt = none ∨ e.failedAt = none := by
  by_cases hfailed : e.failedAt.isSome
  · rw [FailureStands, hchunks] at h
    obtain ⟨e', he', hstatus⟩ := h ⟨e, List.mem_singleton_self _, hfailed⟩
    cases List.mem_singleton.mp he'
    exact .inl (OutboxEntry.status_eq_failed_iff.mp hstatus).1
  · exact .inr (by simpa using hfailed)

/-- The glyph of an attachment of one chunk that was not both acknowledged and failed, beside
that of the chunk's own row. -/
theorem rowStatus_single (hchunks : outbox.chunksOf attachmentId = [e])
    (hend : e.deliveredAt = none ∨ e.failedAt = none) :
    (outbox.attachmentInputs attachmentId now peerHasRead).map rowStatus =
      some (rowStatus (.fromEntry e now peerHasRead)) ↔
    (e.status = .relayed → ¬e.ttl < now - e.sentAt) := by
  rw [attachmentInputs, hchunks]
  cases hdelivered : e.deliveredAt with
  | some t =>
    have hfailed : e.failedAt = none := hend.resolve_left (by simp [hdelivered])
    simp [oldest, rowStatus, ChatRowStatusInputs.fromEntry, OutboxEntry.status, hdelivered, hfailed]
  | none =>
    cases hfailed : e.failedAt with
    | some t =>
      simp [rowStatus, ChatRowStatusInputs.fromEntry, OutboxEntry.status, hdelivered, hfailed]
    | none =>
      have hexpired : e.hasExpired now = decide (e.ttl < now - e.sentAt) := by
        rw [Bool.eq_iff_iff, OutboxEntry.hasExpired_iff, decide_eq_true_eq]
        simp [hdelivered, hfailed]
      cases hrelayed : e.relayedAt with
      | none =>
        simp [oldest, rowStatus, ChatRowStatusInputs.fromEntry, OutboxEntry.status, hdelivered,
          hfailed, hrelayed]
      | some t =>
        -- the row looks at the clock, the attachment does not
        by_cases hlate : e.ttl < now - e.sentAt
        · simp [oldest, rowStatus, ChatRowStatusInputs.fromEntry, OutboxEntry.status, hdelivered,
            hfailed, hrelayed, hexpired, hlate]
        · simp [oldest, rowStatus, ChatRowStatusInputs.fromEntry, OutboxEntry.status, hdelivered,
            hfailed, hrelayed, hexpired, hlate]

/-- The roll-ups agree exactly when no attachment counts as failed only for chunks that were
acknowledged all the same, and no relayed single chunk is overdue. -/
theorem rollupsAgree_iff :
    RollupsAgree outbox attachmentId now peerHasRead ↔
      outbox.FailureStands attachmentId ∧ outbox.NoneOverdue attachmentId now := by
  constructor
  · intro h
    have hstands := tier_eq_status_iff.mp h.tier
    refine ⟨hstands, fun e hchunks hcount => ?_⟩
    exact (rowStatus_single hchunks (hstands.single hchunks)).mp (h.single e hchunks hcount)
  · rintro ⟨hstands, hoverdue⟩
    refine ⟨tier_eq_status_iff.mpr hstands, ?_, worst_attachmentChunkCounts outbox attachmentId,
      fun e hchunks hcount => ?_⟩
    · rw [attachmentChunkCounts_eq]
      exact countOf_sum _
    · exact (rowStatus_single hchunks (hstands.single hchunks)).mpr (hoverdue e hchunks hcount)

end Outbox

end Pizzini.Chat
