import Pizzini.Chat.Messages

/-!
# The status of a row (`Outbox.swift:190–364`)

`rowStatus` maps what the outbox, the acknowledgement and the clock say of a send to the
glyph of its row. `rowStatus_fromEntry` puts it beside `OutboxEntry.status`: the two differ in
an entry whose time is up, and in one that has used up its retries.
-/

namespace Pizzini.Chat

/-- `ChatRowStatus`. -/
inductive ChatRowStatus where
  | pending (retryable : Bool)
  | sending
  | delivered
  | read
  | expired
  | failed
deriving DecidableEq, Repr

namespace ChatRowStatusInputs

/-- `ChatRowStatusInputs.Outbox`. -/
inductive Outbox where
  | pending (pendingFor : Int) (retriesExhausted : Bool)
  | relayed
  | delivered
  | failed
deriving DecidableEq, Repr

/-- `ChatRowStatusInputs.Ack`. -/
inductive Ack where
  | unread
  | read
deriving DecidableEq, Repr

/-- `ChatRowStatusInputs.Ttl`. -/
inductive Ttl where
  | active
  | expired
deriving DecidableEq, Repr

end ChatRowStatusInputs

/-- `ChatRowStatusInputs`. -/
structure ChatRowStatusInputs where
  outbox : ChatRowStatusInputs.Outbox
  ack : ChatRowStatusInputs.Ack
  ttl : ChatRowStatusInputs.Ttl
deriving DecidableEq, Repr

/-- `OutboxEntry.userRetryThreshold`, in seconds. -/
def OutboxEntry.userRetryThreshold : Int := 60

/-- `rowStatus(inputs:)` (Outbox.swift:296). -/
def rowStatus (inputs : ChatRowStatusInputs) : ChatRowStatus :=
  if inputs.outbox = .delivered then
    if inputs.ack = .read then .read else .delivered
  else if inputs.outbox = .failed then .failed
  else if inputs.ttl = .expired then .expired
  else if inputs.outbox = .relayed then .sending
  else
    match inputs.outbox with
    | .pending pendingFor retriesExhausted =>
      if retriesExhausted then .failed
      else .pending (decide (OutboxEntry.userRetryThreshold ≤ pendingFor))
    | _ => .pending false

/-- `ChatRowStatusInputs.from(entry:now:peerHasRead:)` (Outbox.swift:343). -/
def ChatRowStatusInputs.fromEntry (entry : OutboxEntry) (now : Int) (peerHasRead : Bool) :
    ChatRowStatusInputs where
  outbox :=
    if entry.deliveredAt.isSome then .delivered
    else if entry.failedAt.isSome then .failed
    else if entry.relayedAt.isSome then .relayed
    else .pending (now - entry.sentAt) (decide (OutboxEntry.maxRetries ≤ entry.retries))
  ack := if peerHasRead then .read else .unread
  ttl := if entry.hasExpired now then .expired else .active

namespace OutboxEntry

variable {e : OutboxEntry} {now : Int}

theorem status_eq_pending_iff :
    e.status = .pending ↔ e.deliveredAt = none ∧ e.failedAt = none ∧ e.relayedAt = none := by
  rw [status]
  cases e.deliveredAt <;> cases e.failedAt <;> cases e.relayedAt <;> simp

theorem failedAt_of_status (h : e.status = .failed) : e.failedAt.isSome := by
  by_contra hnone
  rw [status, if_neg hnone] at h
  split at h
  · cases h
  · split at h <;> cases h

/-- Only a pending entry is ever retried. -/
theorem status_of_shouldRetry (h : e.shouldRetry now = true) : e.status = .pending := by
  simp only [shouldRetry, Bool.and_eq_true, Option.isNone_iff_eq_none] at h
  exact status_eq_pending_iff.mpr ⟨h.1.1.1.1, h.1.1.1.2, h.1.1.2⟩

theorem hasExpired_iff :
    e.hasExpired now = true ↔ e.deliveredAt = none ∧ e.failedAt = none ∧ e.ttl < now - e.sentAt := by
  simp only [hasExpired, Bool.and_eq_true, Option.isNone_iff_eq_none, decide_eq_true_eq, and_assoc]

end OutboxEntry

/-- The row's glyph, by the entry's status. -/
theorem rowStatus_fromEntry (e : OutboxEntry) (now : Int) (peerHasRead : Bool) :
    rowStatus (.fromEntry e now peerHasRead) =
      match e.status with
      | .delivered => if peerHasRead then .read else .delivered
      | .failed => .failed
      | .relayed => if e.ttl < now - e.sentAt then .expired else .sending
      | .pending =>
        if e.ttl < now - e.sentAt then .expired
        else if OutboxEntry.maxRetries ≤ e.retries then .failed
        else .pending (decide (OutboxEntry.userRetryThreshold ≤ now - e.sentAt)) := by
  cases hdelivered : e.deliveredAt with
  | some t => cases peerHasRead <;> simp [rowStatus, ChatRowStatusInputs.fromEntry,
      OutboxEntry.status, hdelivered]
  | none =>
    cases hfailed : e.failedAt with
    | some t => simp [rowStatus, ChatRowStatusInputs.fromEntry, OutboxEntry.status, hdelivered,
        hfailed]
    | none =>
      -- neither end is reached: the clock decides before the hand-over does
      by_cases hlate : e.ttl < now - e.sentAt
      · have hexpired : e.hasExpired now = true :=
          OutboxEntry.hasExpired_iff.mpr ⟨hdelivered, hfailed, hlate⟩
        cases hrelayed : e.relayedAt <;>
          simp [rowStatus, ChatRowStatusInputs.fromEntry, OutboxEntry.status, hdelivered, hfailed,
            hrelayed, hexpired, hlate]
      · have hactive : e.hasExpired now = false := by
          rw [Bool.eq_false_iff]
          exact fun h => hlate (OutboxEntry.hasExpired_iff.mp h).2.2
        cases hrelayed : e.relayedAt <;>
          simp [rowStatus, ChatRowStatusInputs.fromEntry, OutboxEntry.status, hdelivered, hfailed,
            hrelayed, hactive, hlate]

/-- The two glyphs of a send that has not left the device. -/
def ChatRowStatus.unsent : ChatRowStatus → Bool
  | .pending _ => true
  | .failed => true
  | _ => false

/-- Before its time is up, a row looks unsent exactly when its entry is pending or failed. -/
theorem unsent_rowStatus_iff {e : OutboxEntry} {now : Int} (hactive : ¬e.ttl < now - e.sentAt)
    (peerHasRead : Bool) :
    (rowStatus (.fromEntry e now peerHasRead)).unsent = true ↔
      e.status = .pending ∨ e.status = .failed := by
  rw [rowStatus_fromEntry]
  cases hstatus : e.status with
  | delivered => cases peerHasRead <;> simp [ChatRowStatus.unsent]
  | failed => simp [ChatRowStatus.unsent]
  | relayed => simp [ChatRowStatus.unsent, hactive]
  | pending =>
    by_cases hretries : OutboxEntry.maxRetries ≤ e.retries
    · simp [ChatRowStatus.unsent, hactive, hretries]
    · simp [ChatRowStatus.unsent, hactive, hretries]

end Pizzini.Chat
