import Mathlib.Data.Finset.Card
import Mathlib.Logic.Function.Basic
import Pizzini.Lib.Dict
import Pizzini.Attachments.FileChunkEnvelope
import Pizzini.Attachments.FilenameSanitizer

/-!
# `AttachmentReassembler.swift`: putting received chunks together

Chunks of a file arrive in any order. `feed` stages each in a file of its own,
`chunk-00000.bin` and so on, and when the last expected index is in, `finalize`
concatenates the staged files under the name the sender claimed and removes
them. A table of completed transfers, kept for 24 hours, turns away replays.

The tables are keyed by peer and attachment id, the directory on disk by the
attachment id alone (AttachmentSandbox.swift:83–88). Directories are
dictionaries from names to contents; a directory that does not exist is an
empty one. The model assumes that file operations succeed; a read of a file
that is not there still fails.

`feed` reads and writes one slot: the entry and the completion time under its
key, and one directory. `feedSlot` is its body on that slot, so that what a
chunk cannot touch is plain from the definition (`feed_slot`,
`feed_other_key`, `feed_other_directory`).
-/

namespace Pizzini.Attachments

open Wire FileChunkEnvelope

/-! ## Files -/

/-- The files of one directory. -/
abbrev Directory := Dict String Bytes

/-- `AttachmentSandbox.inboundDirectory(forAttachmentId:)`: the directory of
every attachment id. -/
abbrev Sandbox := AttachmentId → Directory

/-- The digits of `%05u`. -/
def paddedDigits (index : Nat) : List Char :=
  List.replicate (5 - (Nat.toDigits 10 index).length) '0' ++ Nat.toDigits 10 index

/-- The name `chunkFileURL` gives a staged chunk
(AttachmentReassembler.swift:381–398). -/
def chunkName (index : Nat) : String :=
  String.ofList ("chunk-".toList ++ (paddedDigits index ++ ".bin".toList))

theorem paddedDigits_injective : Function.Injective paddedDigits := by
  intro i j h
  have hvalue : ∀ n, Nat.ofDigitChars 10 (paddedDigits n) 0 = n := by
    intro n
    rw [paddedDigits, Nat.ofDigitChars_append, Nat.ofDigitChars_replicate_zero, Nat.mul_zero,
      Nat.ofDigitChars_ten_toDigits]
  rw [← hvalue i, h, hvalue j]

/-- Different chunks are staged in different files. -/
theorem chunkName_injective : Function.Injective chunkName := by
  intro i j h
  have hlist := String.ofList_injective h
  exact paddedDigits_injective (List.append_cancel_right (List.append_cancel_left hlist))

/-! ## Tables (AttachmentReassembler.swift:25–127) -/

/-- `Reason`. -/
inductive Reason where
  | sizeMismatch
  | attachmentIdMismatch
  | duplicateChunk
  | oversizedChunk
  | writeFailed
  deriving DecidableEq

/-- `Completion`, less the rendering tier. `url` is the directory's id and the
name in it. -/
structure Completion where
  attachmentId : AttachmentId
  url : AttachmentId × String
  sanitizedFilename : String
  mime : String
  totalSize : Nat
  deriving DecidableEq

/-- `FeedResult`. -/
inductive FeedResult where
  | progress (received expected : Nat)
  | complete (completion : Completion)
  | rejected (reason : Reason)
  deriving DecidableEq

/-- `Pending`. Instants are whole seconds. -/
structure Pending where
  attachmentId : AttachmentId
  peer : Bytes
  totalSize : Nat
  chunkCount : Nat
  claimedFilename : String
  claimedMime : String
  receivedIndices : Finset Nat
  firstSeenAt : Int
  expiresAt : Int
  bytesWritten : Nat
  deriving DecidableEq

/-- The entry with a written chunk on record (AttachmentReassembler.swift:247–248). -/
def Pending.receive (entry : Pending) (e : FileChunkEnvelope) : Pending :=
  { entry with
    receivedIndices := insert e.chunkIndex entry.receivedIndices
    bytesWritten := entry.bytesWritten + e.chunkBytes.length }

/-- `AttachmentReassembler`: `pending` and `completedAttachmentIds`, both keyed
by `peer + attachmentId`. -/
structure AttachmentReassembler where
  pending : Dict Bytes Pending
  completedAttachmentIds : Dict Bytes Int

namespace AttachmentReassembler

/-- `partialTTL`: 24 hours. -/
def partialTTL : Int := 24 * 60 * 60

/-- `perPeerPendingCap`. -/
def perPeerPendingCap : Nat := 32

/-- `globalInFlightByteBudget`: 256 MiB. -/
def globalInFlightByteBudget : Nat := 256 * 1024 * 1024

/-- `wouldExceedDiskBudget` (AttachmentReassembler.swift:104–108). -/
def wouldExceedDiskBudget (inFlight incoming budget : Nat) : Bool :=
  budget ≤ inFlight || budget - inFlight < incoming

/-- A reassembler as the app starts with it. -/
def fresh : AttachmentReassembler := ⟨∅, ∅⟩

/-- `peer + attachmentId`. -/
def tableKey (peer : Bytes) (attachmentId : AttachmentId) : Bytes := peer ++ attachmentId.1

/-- The ids have one length, so a key determines the peer and the id. -/
theorem tableKey_inj {peer peer' : Bytes} {a a' : AttachmentId}
    (h : tableKey peer a = tableKey peer' a') : peer = peer' ∧ a = a' := by
  have hlen : a.1.length = a'.1.length := by rw [a.2, a'.2]
  obtain ⟨hpeer, hid⟩ := List.append_inj' h hlen
  exact ⟨hpeer, Subtype.ext hid⟩

/-! ## `finalize` (AttachmentReassembler.swift:306–379) -/

/-- The concatenation loop: read staged chunk after staged chunk and append it
to the output file, counting bytes. `none` when a chunk file is not there. The
reads see what earlier rounds wrote. -/
def appendChunks (name : String) : List Nat → Nat → Directory → Option Nat × Directory
  | [], written, dir => (some written, dir)
  | i :: rest, written, dir =>
    match dir.lookup (chunkName i) with
    | none => (none, dir)
    | some bytes =>
      appendChunks name rest (written + bytes.length)
        (dir.insert name ((dir.lookup name).getD [] ++ bytes))

/-- The loop that removes the staged chunks. -/
def removeChunks : List Nat → Directory → Directory
  | [], dir => dir
  | i :: rest, dir => removeChunks rest (dir.erase (chunkName i))

variable (F : Foundation)

/-- `finalize`. `createFile` leaves the output file empty, whatever was under
its name. -/
def finalize (entry : Pending) (dir : Directory) : Except Reason Completion × Directory :=
  let safeName := FilenameSanitizer.sanitize F entry.claimedFilename
  let dir := dir.insert safeName []
  match appendChunks safeName (List.range entry.chunkCount) 0 dir with
  | (none, dir) => (.error .writeFailed, dir)
  | (some written, dir) =>
    if written ≠ entry.totalSize then (.error .sizeMismatch, dir)
    else
      (.ok {
        attachmentId := entry.attachmentId
        url := (entry.attachmentId, safeName)
        sanitizedFilename := safeName
        mime := entry.claimedMime
        totalSize := entry.totalSize },
      removeChunks (List.range entry.chunkCount) dir)

/-! ## `feed` (AttachmentReassembler.swift:132–281) -/

/-- Swift compares texts up to canonical equivalence. -/
def sameText (s t : String) : Bool := F.precomposed s.toList = F.precomposed t.toList

/-- The record of an attachment's first chunk. -/
def newEntry (now : Int) (peer : Bytes) (e : FileChunkEnvelope) : Pending where
  attachmentId := e.attachmentId
  peer := peer
  totalSize := e.totalSize
  chunkCount := e.chunkCount
  claimedFilename := e.filename
  claimedMime := e.mime
  receivedIndices := ∅
  firstSeenAt := now
  expiresAt := now + partialTTL
  bytesWritten := 0

/-- The checks between the lookup of the entry and the write of the chunk
(AttachmentReassembler.swift:186–230), in order. -/
def refusal (inFlightBytes : Nat) (entry : Pending) (e : FileChunkEnvelope) : Option Reason :=
  if ¬ (entry.totalSize = e.totalSize ∧ entry.chunkCount = e.chunkCount
      ∧ sameText F entry.claimedFilename e.filename ∧ sameText F entry.claimedMime e.mime) then
    some .attachmentIdMismatch
  else if e.chunkCount ≤ e.chunkIndex then some .attachmentIdMismatch
  else if e.chunkIndex ∈ entry.receivedIndices then some .duplicateChunk
  else if e.totalSize < e.chunkBytes.length then some .oversizedChunk
  else if wouldExceedDiskBudget inFlightBytes e.chunkBytes.length globalInFlightByteBudget then
    some .writeFailed
  else none

/-- What `feed` reads and writes for one key: the pending entry, the time of
completion, and the attachment's directory. -/
structure Slot where
  entry : Option Pending
  completedAt : Option Int
  dir : Directory

/-- `feed` from the entry on: the checks, the write, and `finalize` when every
index is in. When `finalize` fails, the entry and the whole directory go. -/
def feedEntry (now : Int) (inFlightBytes : Nat) (entry : Pending) (e : FileChunkEnvelope)
    (slot : Slot) : FeedResult × Slot :=
  match refusal F inFlightBytes entry e with
  | some reason => (.rejected reason, { slot with entry := some entry })
  | none =>
    let dir := slot.dir.insert (chunkName e.chunkIndex) e.chunkBytes
    let entry := entry.receive e
    if entry.receivedIndices.card = entry.chunkCount then
      match finalize F entry dir with
      | (.ok completion, dir) => (.complete completion, ⟨none, some now, dir⟩)
      | (.error reason, _) => (.rejected reason, ⟨none, slot.completedAt, ∅⟩)
    else
      (.progress entry.receivedIndices.card entry.chunkCount,
        ⟨some entry, slot.completedAt, dir⟩)

/-- The body of `feed` on the slot of its key, with the completion times
already reaped. -/
def feedSlot (now : Int) (peer : Bytes) (inFlightForPeer inFlightBytes : Nat)
    (e : FileChunkEnvelope) (slot : Slot) : FeedResult × Slot :=
  if slot.completedAt.isSome then (.rejected .duplicateChunk, slot)
  else
    match slot.entry with
    | some entry => feedEntry F now inFlightBytes entry e slot
    | none =>
      if perPeerPendingCap ≤ inFlightForPeer then (.rejected .writeFailed, slot)
      else feedEntry F now inFlightBytes (newEntry now peer e) e slot

/-- `pending.values.filter { $0.peer == peer }.count`. -/
def inFlightForPeer (r : AttachmentReassembler) (peer : Bytes) : Nat :=
  (r.pending.retain fun _ p => p.peer = peer).len

/-- `pending.values.reduce(0) { $0 + $1.bytesWritten }`. A new entry has
written nothing, so the sum before it is opened is the sum after. -/
def inFlightBytes (r : AttachmentReassembler) : Nat :=
  (r.pending.entries.map fun p => p.2.bytesWritten).sum

/-- A completion time younger than `partialTTL`. -/
def young (now completedAt : Int) : Bool := now - completedAt < partialTTL

/-- The slot of a key. -/
def slot (r : AttachmentReassembler) (sandbox : Sandbox) (peer : Bytes)
    (attachmentId : AttachmentId) : Slot where
  entry := r.pending.lookup (tableKey peer attachmentId)
  completedAt := r.completedAttachmentIds.lookup (tableKey peer attachmentId)
  dir := sandbox attachmentId

/-- The slot after old completion times are forgotten. -/
def Slot.reap (now : Int) (slot : Slot) : Slot :=
  { slot with completedAt := slot.completedAt.filter (young now) }

/-- `feed`: its result, and the tables and files after it. -/
def feed (r : AttachmentReassembler) (sandbox : Sandbox) (now : Int) (peer : Bytes)
    (e : FileChunkEnvelope) : FeedResult × AttachmentReassembler × Sandbox :=
  let key := tableKey peer e.attachmentId
  let reaped := r.completedAttachmentIds.retain fun _ t => young now t
  let (result, new) := feedSlot F now peer (r.inFlightForPeer peer) r.inFlightBytes e
    ((r.slot sandbox peer e.attachmentId).reap now)
  (result, ⟨r.pending.put key new.entry, reaped.put key new.completedAt⟩,
    Function.update sandbox e.attachmentId new.dir)

/-- The result of `feed` and the new slot of its key are `feedSlot`'s. -/
theorem feed_slot (r : AttachmentReassembler) (sandbox : Sandbox) (now : Int) (peer : Bytes)
    (e : FileChunkEnvelope) :
    ((r.feed F sandbox now peer e).1,
      (r.feed F sandbox now peer e).2.1.slot (r.feed F sandbox now peer e).2.2 peer
        e.attachmentId) =
      feedSlot F now peer (r.inFlightForPeer peer) r.inFlightBytes e
        ((r.slot sandbox peer e.attachmentId).reap now) := by
  simp only [feed, slot, AList.lookup_put_self, Function.update_self]

/-- A chunk with another key leaves the tables' rows alone, up to reaping. -/
theorem feed_other_key (r : AttachmentReassembler) (sandbox : Sandbox) (now : Int) {peer : Bytes}
    {e : FileChunkEnvelope} {key : Bytes} (hkey : key ≠ tableKey peer e.attachmentId) :
    (r.feed F sandbox now peer e).2.1.pending.lookup key = r.pending.lookup key ∧
    (r.feed F sandbox now peer e).2.1.completedAttachmentIds.lookup key =
      (r.completedAttachmentIds.lookup key).filter (young now) := by
  constructor
  · simp only [feed, AList.lookup_put_ne _ hkey]
  · simp only [feed, AList.lookup_put_ne _ hkey, AList.lookup_retain]

/-- A chunk of another attachment leaves the directory alone. -/
theorem feed_other_directory (r : AttachmentReassembler) (sandbox : Sandbox) (now : Int)
    (peer : Bytes) {e : FileChunkEnvelope} {a : AttachmentId} (ha : a ≠ e.attachmentId) :
    (r.feed F sandbox now peer e).2.2 a = sandbox a := by
  simp only [feed, Function.update_of_ne ha]

/-! ## What a chunk can do -/

variable {F} {now : Int} {peer : Bytes} {forPeer inFlight : Nat} {e : FileChunkEnvelope}
  {result : FeedResult} {new : Slot}

/-- `finalize` reports the entry's id. -/
theorem finalize_attachmentId {entry : Pending} {dir dir' : Directory} {completion : Completion}
    (h : finalize F entry dir = (.ok completion, dir')) :
    completion.attachmentId = entry.attachmentId := by
  simp only [finalize] at h
  split at h
  · exact absurd (congrArg Prod.fst h) (by simp)
  · split at h
    · exact absurd (congrArg Prod.fst h) (by simp)
    · cases (Prod.mk.inj h).1
      rfl

/-- What can come of a chunk that meets `entry`: a check refuses it, it is
staged, or it is the last one and the transfer ends one way or the other. -/
inductive Fate (now : Int) (e : FileChunkEnvelope) (entry : Pending) (slot : Slot) :
    FeedResult → Slot → Prop
  | refused (reason : Reason) :
      Fate now e entry slot (.rejected reason) { slot with entry := some entry }
  | staged (received expected : Nat) :
      Fate now e entry slot (.progress received expected)
        ⟨some (entry.receive e), slot.completedAt,
          slot.dir.insert (chunkName e.chunkIndex) e.chunkBytes⟩
  | completed (completion : Completion) (dir : Directory)
      (hid : completion.attachmentId = entry.attachmentId) :
      Fate now e entry slot (.complete completion) ⟨none, some now, dir⟩
  | failed (reason : Reason) :
      Fate now e entry slot (.rejected reason) ⟨none, slot.completedAt, ∅⟩

theorem feedEntry_fate (entry : Pending) (slot : Slot) :
    Fate now e entry slot (feedEntry F now inFlight entry e slot).1
      (feedEntry F now inFlight entry e slot).2 := by
  simp only [feedEntry]
  split
  · exact .refused _
  · split
    · split
      · next hfin => exact .completed _ _ (finalize_attachmentId hfin)
      · exact .failed _
    · exact .staged _ _

/-- A chunk is turned away before its entry is read, or it meets the entry of
its key, which it may open. -/
theorem feedSlot_cases {slot : Slot}
    (h : feedSlot F now peer forPeer inFlight e slot = (result, new)) :
    (∃ reason, result = .rejected reason ∧ new = slot) ∨
    ∃ entry, (slot.entry = some entry ∨ slot.entry = none ∧ entry = newEntry now peer e) ∧
      Fate now e entry slot result new := by
  have hfate : ∀ {entry}, feedEntry F now inFlight entry e slot = (result, new) →
      Fate now e entry slot result new := by
    intro entry hfeed
    have hfate : Fate now e entry slot (feedEntry F now inFlight entry e slot).1
      (feedEntry F now inFlight entry e slot).2 := feedEntry_fate entry slot
    rwa [hfeed] at hfate
  rw [feedSlot] at h
  split at h
  · cases h
    exact .inl ⟨_, rfl, rfl⟩
  · split at h
    · next entry hsome => exact .inr ⟨entry, .inl hsome, hfate h⟩
    · next hnone =>
      split at h
      · cases h
        exact .inl ⟨_, rfl, rfl⟩
      · exact .inr ⟨_, .inr ⟨hnone, rfl⟩, hfate h⟩

/-- Every pending entry stands under its own peer and id. -/
def Keyed (r : AttachmentReassembler) : Prop :=
  ∀ key p, r.pending.lookup key = some p → key = tableKey p.peer p.attachmentId

theorem keyed_fresh : fresh.Keyed := by
  intro key p h
  exact absurd h (by simp [fresh])

variable {r : AttachmentReassembler} {sandbox : Sandbox}

/-- The entry of a chunk's key is of the chunk's peer and id. -/
theorem Keyed.entry (h : r.Keyed) {a : AttachmentId} {p : Pending}
    (hp : r.pending.lookup (tableKey peer a) = some p) : p.peer = peer ∧ p.attachmentId = a := by
  obtain ⟨hpeer, hid⟩ := tableKey_inj (h _ _ hp)
  exact ⟨hpeer.symm, hid.symm⟩

/-- The entry that a chunk meets or opens is of its peer and id. -/
theorem Keyed.entry_or_new (h : r.Keyed) {entry : Pending}
    (hentry : r.pending.lookup (tableKey peer e.attachmentId) = some entry ∨
      r.pending.lookup (tableKey peer e.attachmentId) = none ∧ entry = newEntry now peer e) :
    entry.peer = peer ∧ entry.attachmentId = e.attachmentId := by
  rcases hentry with hsome | ⟨-, rfl⟩
  · exact h.entry hsome
  · exact ⟨rfl, rfl⟩

theorem Keyed.feed (h : r.Keyed) : (r.feed F sandbox now peer e).2.1.Keyed := by
  intro key p hp
  by_cases hkey : key = tableKey peer e.attachmentId
  · subst hkey
    have hslot := feed_slot F r sandbox now peer e
    suffices hgoal : p.peer = peer ∧ p.attachmentId = e.attachmentId by rw [hgoal.1, hgoal.2]
    generalize (r.feed F sandbox now peer e).1 = result at hslot
    have hentry : ((r.feed F sandbox now peer e).2.1.slot (r.feed F sandbox now peer e).2.2 peer
        e.attachmentId).entry = some p := hp
    generalize (r.feed F sandbox now peer e).2.1.slot _ _ _ = new at hslot hentry
    rcases feedSlot_cases hslot.symm with ⟨_, -, rfl⟩ | ⟨entry, hold, hfate⟩
    · exact h.entry hentry
    · have hof := h.entry_or_new hold
      cases hfate with
      | refused | staged =>
        cases hentry
        exact hof
      | completed | failed => exact absurd hentry (by simp)
  · rw [(feed_other_key F r sandbox now hkey).1] at hp
    exact h _ _ hp

/-- A completed transfer is the one whose chunk came in. -/
theorem Keyed.feed_complete (h : r.Keyed) {completion : Completion}
    (hc : (r.feed F sandbox now peer e).1 = .complete completion) :
    completion.attachmentId = e.attachmentId := by
  have hslot := feed_slot F r sandbox now peer e
  rw [hc] at hslot
  generalize (r.feed F sandbox now peer e).2.1.slot _ _ _ = new at hslot
  rcases feedSlot_cases hslot.symm with ⟨_, hres, -⟩ | ⟨entry, hold, hfate⟩
  · cases hres
  · cases hfate with
    | completed _ _ hid => exact hid.trans (h.entry_or_new hold).2

/-! ## Reaping partial transfers (AttachmentReassembler.swift:283–302) -/

/-- `staleEntries(now:)`: peer and id of the entries whose time is over. -/
def staleEntries (r : AttachmentReassembler) (now : Int) : List (Bytes × AttachmentId) :=
  ((r.pending.entries.map (·.2)).filter fun p => p.expiresAt < now).map
    fun p => (p.peer, p.attachmentId)

/-- `discard(peer:attachmentId:)`: the entry, and the whole directory. -/
def discard (r : AttachmentReassembler) (sandbox : Sandbox) (peer : Bytes)
    (attachmentId : AttachmentId) : AttachmentReassembler × Sandbox :=
  ({ r with pending := r.pending.erase (tableKey peer attachmentId) },
    Function.update sandbox attachmentId ∅)

end AttachmentReassembler

end Pizzini.Attachments
