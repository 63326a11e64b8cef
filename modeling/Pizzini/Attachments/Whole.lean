import Mathlib.Data.List.TakeWhile
import Pizzini.Lib.Runs
import Pizzini.Attachments.AttachmentReassembler

/-!
# Attachments arrive whole

The chunks of one file, in any order and with any repetition, between chunks of
the same peer's other files. The run is followed through the file's slot: while
indices are missing it gathers them (`Gathering`), with the last one `finalize`
puts the file together, and for 24 hours after that every further chunk is
turned away.

The output file is created in the directory of the staged chunks, under a name
the sender chose. A file that is itself called `chunk-00000.bin` meets its own
staging file there: it is emptied before it is read, or removed with the other
staged chunks. `arrives_whole_iff` is the exact condition: the name is not one
of the file's own staging names, and the chunks do not all come again once the
completed transfer is forgotten.
-/

namespace Pizzini.Attachments

open Wire FileChunkEnvelope AttachmentReassembler Runs

/-! ## `finalize` -/

/-- The concatenation loop, when the output file is none of the staged ones. -/
theorem appendChunks_spec {name : String} {chunk : Nat → Bytes} {is : List Nat}
    (hname : ∀ i ∈ is, name ≠ chunkName i) :
    ∀ (written : Nat) {dir : Directory} {content : Bytes},
      (∀ i ∈ is, dir.lookup (chunkName i) = some (chunk i)) →
      dir.lookup name = some content →
      ∃ dir', appendChunks name is written dir
          = (some (written + (is.map chunk).flatten.length), dir') ∧
        dir'.lookup name = some (content ++ (is.map chunk).flatten) := by
  induction is with
  | nil =>
    intro written dir content _ hcontent
    exact ⟨dir, rfl, by simpa using hcontent⟩
  | cons i is ih =>
    intro written dir content hstaged hcontent
    have hstaged' : ∀ j ∈ is,
        (dir.insert name (content ++ chunk i)).lookup (chunkName j) = some (chunk j) := by
      intro j hj
      rw [AList.lookup_insert_ne (hname j (List.mem_cons_of_mem _ hj)).symm]
      exact hstaged j (List.mem_cons_of_mem _ hj)
    obtain ⟨dir', heq, hlook⟩ := ih (fun j hj => hname j (List.mem_cons_of_mem _ hj))
      (written + (chunk i).length) hstaged' (AList.lookup_insert _)
    refine ⟨dir', ?_, ?_⟩
    · rw [appendChunks, hstaged i List.mem_cons_self]
      simp only [hcontent, Option.getD_some]
      rw [heq, List.map_cons, List.flatten_cons, List.length_append, Nat.add_assoc]
    · rw [hlook, List.map_cons, List.flatten_cons, List.append_assoc]

/-- The loop that removes staged chunks removes exactly these. -/
theorem lookup_removeChunks (name : String) {is : List Nat} :
    ∀ {dir : Directory}, (removeChunks is dir).lookup name =
      if name ∈ is.map chunkName then none else dir.lookup name := by
  induction is with
  | nil =>
    intro dir
    rfl
  | cons i is ih =>
    intro dir
    rw [removeChunks, ih, List.map_cons]
    by_cases hin : name ∈ is.map chunkName
    · rw [if_pos hin, if_pos (List.mem_cons_of_mem _ hin)]
    · by_cases hi : name = chunkName i
      · rw [if_neg hin, if_pos (hi ▸ List.mem_cons_self), hi, AList.lookup_erase]
      · rw [if_neg hin, if_neg (by simp [hi, hin]), AList.lookup_erase_ne hi]

/-- The name the receiver gives the file. -/
def Outgoing.safeName (F : Foundation) (out : Outgoing) : String :=
  FilenameSanitizer.sanitize F out.filename

/-- The file's name is none of the names its chunks are staged under. -/
def Outgoing.NameApart (F : Foundation) (out : Outgoing) : Prop :=
  ∀ i < out.chunkCount, out.safeName F ≠ chunkName i

/-- The pending entry is the file's. -/
structure Pending.Of (entry : Pending) (out : Outgoing) : Prop where
  attachmentId : entry.attachmentId = out.attachmentId
  totalSize : entry.totalSize = out.bytes.length
  chunkCount : entry.chunkCount = out.chunkCount
  filename : entry.claimedFilename = out.filename
  mime : entry.claimedMime = out.mime

/-- The completion the file should have. -/
def Outgoing.completion (F : Foundation) (out : Outgoing) : Completion where
  attachmentId := out.attachmentId
  url := (out.attachmentId, out.safeName F)
  sanitizedFilename := out.safeName F
  mime := out.mime
  totalSize := out.bytes.length

variable {F : Foundation} {out : Outgoing} {entry : Pending}

/-- With every chunk staged and a name of its own, the file is put together. -/
theorem finalize_whole (hentry : entry.Of out) (hname : out.NameApart F) {dir : Directory}
    (hstaged : ∀ i < out.chunkCount, dir.lookup (chunkName i) = some (out.chunk i)) :
    ∃ dir', finalize F entry dir = (.ok (out.completion F), dir') ∧
      dir'.lookup (out.safeName F) = some out.bytes := by
  have hname' : ∀ i ∈ List.range out.chunkCount, out.safeName F ≠ chunkName i :=
    fun i hi => hname i (List.mem_range.mp hi)
  have hstaged' : ∀ i ∈ List.range out.chunkCount,
      (dir.insert (out.safeName F) []).lookup (chunkName i) = some (out.chunk i) := by
    intro i hi
    rw [AList.lookup_insert_ne (hname' i hi).symm]
    exact hstaged i (List.mem_range.mp hi)
  obtain ⟨dir', heq, hlook⟩ :=
    appendChunks_spec hname' 0 hstaged' (AList.lookup_insert _)
  have hbytes : ((List.range out.chunkCount).map out.chunk).flatten = out.bytes :=
    out.flatten_chunks
  rw [hbytes, Nat.zero_add] at heq
  rw [hbytes, List.nil_append] at hlook
  refine ⟨removeChunks (List.range out.chunkCount) dir', ?_, ?_⟩
  · simp only [finalize, hentry.filename, hentry.chunkCount, hentry.totalSize,
      hentry.attachmentId, hentry.mime]
    rw [← Outgoing.safeName, heq]
    simp [Outgoing.completion]
  · rw [lookup_removeChunks, if_neg, hlook]
    intro hmem
    obtain ⟨i, hi, hsame⟩ := List.mem_map.mp hmem
    exact hname' i hi hsame.symm

/-- Under one of its own staging names, a file that `finalize` reports complete
is gone: the loop over the staged chunks removed it. -/
theorem finalize_collides (hentry : entry.Of out) {i : Nat} (hi : i < out.chunkCount)
    (hname : out.safeName F = chunkName i) {dir dir' : Directory} {completion : Completion}
    (hfin : finalize F entry dir = (.ok completion, dir')) :
    completion.url = (out.attachmentId, out.safeName F) ∧
      dir'.lookup (out.safeName F) = none := by
  simp only [finalize, hentry.filename, hentry.chunkCount, hentry.attachmentId] at hfin
  rw [← Outgoing.safeName] at hfin
  split at hfin
  · exact absurd (congrArg Prod.fst hfin) (by simp)
  · split at hfin
    · exact absurd (congrArg Prod.fst hfin) (by simp)
    · obtain ⟨hok, hdir⟩ := Prod.mk.inj hfin
      cases hok
      refine ⟨rfl, ?_⟩
      rw [← hdir, lookup_removeChunks, if_pos]
      exact List.mem_map.mpr ⟨i, List.mem_range.mpr hi, hname.symm⟩

/-! ## One chunk -/

/-- The slot while the indices `seen` are in: no completion on record, the
entry is the file's, and the seen chunks are staged. -/
structure Gathering (out : Outgoing) (seen : Finset Nat) (slot : Slot) : Prop where
  completedAt : slot.completedAt = none
  entry : (slot.entry = none ∧ seen = ∅) ∨
    ∃ entry, slot.entry = some entry ∧ entry.Of out ∧ entry.receivedIndices = seen
  staged : ∀ i ∈ seen, slot.dir.lookup (chunkName i) = some (out.chunk i)

/-- The caps leave room for the chunk `e`, if it is one that is still missing:
the peer may open another attachment, and the disk budget holds its bytes. -/
def AttachmentReassembler.Slot.HasRoom (slot : Slot) (inFlightForPeer inFlightBytes : Nat) (e : FileChunkEnvelope) :
    Prop :=
  slot.completedAt = none →
    (slot.entry = none → inFlightForPeer < perPeerPendingCap) ∧
    ((∀ entry, slot.entry = some entry → e.chunkIndex ∉ entry.receivedIndices) →
      wouldExceedDiskBudget inFlightBytes e.chunkBytes.length globalInFlightByteBudget = false)

variable {seen : Finset Nat} {slot : Slot} {peer : Bytes} {now : Int} {i forPeer inFlight : Nat}

/-- The entry a chunk of the file is checked against: the one on record, or the
one the chunk opens. -/
theorem Gathering.feedSlot_eq (h : Gathering out seen slot) (F : Foundation) (now : Int)
    (peer : Bytes) (hroom : slot.HasRoom forPeer inFlight (out.envelope i)) :
    ∃ entry : Pending, entry.Of out ∧ entry.receivedIndices = seen ∧
      (slot.entry = none ∨ slot.entry = some entry) ∧
      feedSlot F now peer forPeer inFlight (out.envelope i) slot =
        feedEntry F now inFlight entry (out.envelope i) slot := by
  have hopen : ¬ slot.completedAt.isSome := by simp [h.completedAt]
  rcases h.entry with ⟨hnone, rfl⟩ | ⟨entry, hsome, hof, hseen⟩
  · have hcap : ¬ perPeerPendingCap ≤ forPeer :=
      Nat.not_le.mpr ((hroom h.completedAt).1 hnone)
    refine ⟨newEntry now peer (out.envelope i), ⟨rfl, rfl, rfl, rfl, rfl⟩, rfl, .inl hnone, ?_⟩
    rw [feedSlot, if_neg hopen, hnone]
    simp only [if_neg hcap]
  · refine ⟨entry, hof, hseen, .inr hsome, ?_⟩
    rw [feedSlot, if_neg hopen, hsome]

/-- A chunk of the file passes the checks against the file's entry, but for the
index and the budget. -/
theorem refusal_envelope (hentry : entry.Of out) (hi : i < out.chunkCount) :
    refusal F inFlight entry (out.envelope i) =
      if i ∈ entry.receivedIndices then some .duplicateChunk
      else if wouldExceedDiskBudget inFlight (out.chunk i).length globalInFlightByteBudget then
        some .writeFailed
      else none := by
  have hsame : entry.totalSize = (out.envelope i).totalSize ∧
      entry.chunkCount = (out.envelope i).chunkCount ∧
      sameText F entry.claimedFilename (out.envelope i).filename ∧
      sameText F entry.claimedMime (out.envelope i).mime := by
    refine ⟨hentry.totalSize, hentry.chunkCount, ?_, ?_⟩
    · rw [hentry.filename]
      simp [sameText, Outgoing.envelope]
    · rw [hentry.mime]
      simp [sameText, Outgoing.envelope]
  have hfits : ¬ (out.envelope i).totalSize < (out.envelope i).chunkBytes.length :=
    Nat.not_lt.mpr (out.length_chunk_le_length i)
  have hidx : ¬ (out.envelope i).chunkCount ≤ (out.envelope i).chunkIndex := Nat.not_le.mpr hi
  rw [refusal, if_neg (not_not.mpr hsame), if_neg hidx, if_neg hfits]
  rfl

/-- A chunk that is already in changes nothing. -/
theorem Gathering.feed_seen (h : Gathering out seen slot) (F : Foundation) (now : Int)
    (peer : Bytes) (hroom : slot.HasRoom forPeer inFlight (out.envelope i)) (hi : i < out.chunkCount)
    (hseen : i ∈ seen) :
    feedSlot F now peer forPeer inFlight (out.envelope i) slot =
      (.rejected .duplicateChunk, slot) := by
  obtain ⟨entry, hof, hrec, hslot, heq⟩ := h.feedSlot_eq F now peer hroom
  rw [heq, feedEntry, refusal_envelope hof hi, hrec, if_pos hseen]
  rcases hslot with hnone | hsome
  · rcases h.entry with ⟨-, rfl⟩ | ⟨_, hsome, -⟩
    · exact absurd hseen (Finset.notMem_empty i)
    · exact absurd hsome (by simp [hnone])
  · simp only [← hsome]

/-- A missing chunk is staged. -/
theorem Gathering.staged_insert (h : Gathering out seen slot) (i : Nat) :
    ∀ j ∈ insert i seen,
      (slot.dir.insert (chunkName i) (out.chunk i)).lookup (chunkName j) = some (out.chunk j) := by
  intro j hj
  by_cases hij : j = i
  · rw [hij, AList.lookup_insert]
  · rw [AList.lookup_insert_ne (fun hname => hij (chunkName_injective hname))]
    exact h.staged j (Finset.mem_of_mem_insert_of_ne hj hij)

/-- A missing chunk: with others still missing the slot goes on gathering, with
the last one `finalize` has every chunk staged. -/
theorem Gathering.feed_new (h : Gathering out seen slot) (F : Foundation) (now : Int)
    (peer : Bytes) (hroom : slot.HasRoom forPeer inFlight (out.envelope i))
    (hi : i < out.chunkCount) (hseen : i ∉ seen) :
    (((insert i seen).card ≠ out.chunkCount ∧ ∃ received expected slot',
        feedSlot F now peer forPeer inFlight (out.envelope i) slot =
          (.progress received expected, slot') ∧
        Gathering out (insert i seen) slot') ∨
      ((insert i seen).card = out.chunkCount ∧ ∃ entry dir, Pending.Of entry out ∧
        (∀ j ∈ insert i seen, AList.lookup (chunkName j) dir = some (out.chunk j)) ∧
        feedSlot F now peer forPeer inFlight (out.envelope i) slot =
          match finalize F entry dir with
          | (.ok completion, dir) => (.complete completion, ⟨none, some now, dir⟩)
          | (.error reason, _) => (.rejected reason, ⟨none, slot.completedAt, ∅⟩))) := by
  obtain ⟨entry, hof, rfl, hslot, heq⟩ := h.feedSlot_eq F now peer hroom
  have hbudget : ¬ (wouldExceedDiskBudget inFlight (out.chunk i).length
      globalInFlightByteBudget = true) := by
    have hfresh : ∀ entry', slot.entry = some entry' → i ∉ entry'.receivedIndices := by
      intro entry' hentry'
      rcases hslot with hnone | hsome
      · exact absurd hentry' (by simp [hnone])
      · cases hsome.symm.trans hentry'
        exact hseen
    exact Bool.eq_false_iff.mp ((hroom h.completedAt).2 hfresh)
  have hstaged := h.staged_insert i
  have hof' : (entry.receive (out.envelope i)).Of out :=
    ⟨hof.attachmentId, hof.totalSize, hof.chunkCount, hof.filename, hof.mime⟩
  rw [heq, feedEntry, refusal_envelope hof hi, if_neg hseen, if_neg hbudget]
  by_cases hcard : (insert i entry.receivedIndices).card = out.chunkCount
  · refine .inr ⟨hcard, entry.receive (out.envelope i), _, hof', hstaged, ?_⟩
    exact if_pos (hcard.trans hof'.chunkCount.symm)
  · refine .inl ⟨hcard, _, _, _, if_neg fun heq => hcard (heq.trans hof'.chunkCount), ?_⟩
    exact ⟨h.completedAt, .inr ⟨_, rfl, hof', rfl⟩, hstaged⟩

/-- Every index is in exactly when their number is the chunk count. -/
theorem mem_of_card_eq (hsub : seen ⊆ Finset.range out.chunkCount)
    (hcard : seen.card = out.chunkCount) {i : Nat} (hi : i < out.chunkCount) : i ∈ seen := by
  have hall : seen = Finset.range out.chunkCount :=
    Finset.eq_of_subset_of_card_le hsub (by rw [Finset.card_range, hcard])
  rw [hall]
  exact Finset.mem_range.mpr hi

/-- The last chunk of a file with a name of its own. -/
theorem Gathering.feed_last (h : Gathering out seen slot) (now : Int) (peer : Bytes)
    (hroom : slot.HasRoom forPeer inFlight (out.envelope i)) (hi : i < out.chunkCount)
    (hseen : i ∉ seen) (hsub : insert i seen ⊆ Finset.range out.chunkCount)
    (hcard : (insert i seen).card = out.chunkCount) (hname : out.NameApart F) :
    ∃ dir, feedSlot F now peer forPeer inFlight (out.envelope i) slot =
        (.complete (out.completion F), ⟨none, some now, dir⟩) ∧
      dir.lookup (out.safeName F) = some out.bytes := by
  rcases h.feed_new F now peer hroom hi hseen with ⟨hne, -⟩ | ⟨-, entry, dir, hof, hstaged, heq⟩
  · exact absurd hcard hne
  · obtain ⟨dir', hfin, hlook⟩ := finalize_whole hof hname fun j hj =>
      hstaged j (mem_of_card_eq hsub hcard hj)
    rw [hfin] at heq
    exact ⟨dir', heq, hlook⟩

/-- The last chunk of a file under one of its own staging names: no completion,
or one whose file is not there. -/
theorem Gathering.feed_last_collides (h : Gathering out seen slot) (F : Foundation) (now : Int)
    (peer : Bytes) (hroom : slot.HasRoom forPeer inFlight (out.envelope i))
    (hi : i < out.chunkCount) (hseen : i ∉ seen) (hcard : (insert i seen).card = out.chunkCount)
    {j : Nat} (hj : j < out.chunkCount) (hname : out.safeName F = chunkName j)
    {completion : Completion} {new : Slot}
    (hfeed : feedSlot F now peer forPeer inFlight (out.envelope i) slot =
      (.complete completion, new)) :
    completion.url = (out.attachmentId, out.safeName F) ∧
      new.dir.lookup (out.safeName F) = none := by
  rcases h.feed_new F now peer hroom hi hseen with ⟨hne, -⟩ | ⟨-, entry, dir, hof, -, heq⟩
  · exact absurd hcard hne
  · rw [hfeed] at heq
    split at heq
    · next dir' hfin =>
      obtain ⟨hc, rfl⟩ := Prod.mk.inj heq
      cases hc
      exact finalize_collides hof hj hname hfin
    · cases (Prod.mk.inj heq).1

/-! ## A run of one peer's chunks -/

/-- A decrypted chunk payload and the time it comes in. -/
structure Arrival where
  now : Int
  payload : Bytes
  deriving DecidableEq

/-- A reassembler and the sandbox it stages files in. -/
abbrev Receiver := AttachmentReassembler × Sandbox

/-- `handleFileChunkPayload` (ChatStore.swift:4531–4554): a payload that does
not decode is dropped, the others are fed to the reassembler. -/
def receive (F : Foundation) (peer : Bytes) (st : Receiver) (ev : Arrival) :
    Option FeedResult × Receiver :=
  match decode ev.payload with
  | .error _ => (none, st)
  | .ok e =>
    let (result, st) := st.1.feed F st.2 ev.now peer e
    (some result, st)

/-- The receiver after a sequence of payloads. -/
def receiveAll (F : Foundation) (peer : Bytes) (st : Receiver) (evs : List Arrival) : Receiver :=
  evs.foldl (fun st ev => (receive F peer st ev).2) st

/-- When a feed completes the attachment `a`, what is then in the file at the
completion's url, if there is one. -/
def completedFile (a : AttachmentId) (result : Option FeedResult) (sandbox : Sandbox) :
    Option (Option Bytes) :=
  match result with
  | some (.complete completion) =>
    if completion.attachmentId = a then some ((sandbox completion.url.1).lookup completion.url.2)
    else none
  | _ => none

/-- The completions of the attachment `a` in a run, feed by feed. -/
def completions (F : Foundation) (peer : Bytes) (a : AttachmentId) :
    Receiver → List Arrival → List (Option (Option Bytes))
  | _, [] => []
  | st, ev :: evs =>
    completedFile a (receive F peer st ev).1 (receive F peer st ev).2.2 ::
      completions F peer a (receive F peer st ev).2 evs

/-- No completion at any of the feeds. -/
def silence (evs : List Arrival) : List (Option (Option Bytes)) := evs.map fun _ => none

/-- Every chunk of the file is among the payloads. -/
def Outgoing.Covered (out : Outgoing) (evs : List Arrival) : Prop :=
  ∀ i < out.chunkCount, ∃ ev ∈ evs, out.payload i = some ev.payload

/-- A chunk of the file, or of another attachment. -/
def Outgoing.Sent (out : Outgoing) (ev : Arrival) : Prop :=
  (∃ i < out.chunkCount, out.payload i = some ev.payload) ∨
    ∃ e, decode ev.payload = .ok e ∧ e.attachmentId ≠ out.attachmentId

/-- At every chunk of the file the caps leave room for it. -/
def RoomAlong (F : Foundation) (peer : Bytes) (out : Outgoing) : Receiver → List Arrival → Prop
  | _, [] => True
  | st, ev :: evs =>
    (∀ i < out.chunkCount, out.payload i = some ev.payload →
      ((st.1.slot st.2 peer out.attachmentId).reap ev.now).HasRoom (st.1.inFlightForPeer peer)
        st.1.inFlightBytes (out.envelope i)) ∧
    RoomAlong F peer out (receive F peer st ev).2 evs

variable {st : Receiver} {evs more : List Arrival} {ev : Arrival}

theorem receiveAll_append : receiveAll F peer st (evs ++ more) =
    receiveAll F peer (receiveAll F peer st evs) more :=
  List.foldl_append

theorem completions_append {a : AttachmentId} :
    ∀ {st : Receiver}, completions F peer a st (evs ++ more) =
      completions F peer a st evs ++ completions F peer a (receiveAll F peer st evs) more := by
  induction evs with
  | nil =>
    intro st
    rfl
  | cons ev evs ih =>
    intro st
    rw [List.cons_append, completions, ih]
    rfl

theorem roomAlong_append :
    ∀ {st : Receiver}, RoomAlong F peer out st (evs ++ more) ↔
      RoomAlong F peer out st evs ∧ RoomAlong F peer out (receiveAll F peer st evs) more := by
  induction evs with
  | nil =>
    intro st
    exact (iff_of_eq (true_and _)).symm
  | cons ev evs ih =>
    intro st
    rw [List.cons_append, RoomAlong, RoomAlong, ih, and_assoc]
    rfl

theorem Outgoing.Covered.append (h : out.Covered evs) (more : List Arrival) :
    out.Covered (evs ++ more) := by
  intro i hi
  obtain ⟨ev, hev, hpayload⟩ := h i hi
  exact ⟨ev, List.mem_append_left _ hev, hpayload⟩

theorem Outgoing.not_covered_nil : ¬ out.Covered [] := by
  intro h
  obtain ⟨_, hmem, -⟩ := h 0 out.chunkCount_pos
  exact absurd hmem List.not_mem_nil

/-! ## One arrival, seen from the file's slot -/

/-- A chunk of the file is `feedSlot` on the file's slot. -/
theorem receive_own (hadm : out.Admissible) (hi : i < out.chunkCount)
    (hpayload : out.payload i = some ev.payload)
    (hreap : (st.1.slot st.2 peer out.attachmentId).reap ev.now = slot) {result : FeedResult}
    {new : Slot} (hfeed : feedSlot F ev.now peer (st.1.inFlightForPeer peer) st.1.inFlightBytes
      (out.envelope i) slot = (result, new)) :
    (receive F peer st ev).1 = some result ∧
      (receive F peer st ev).2.1.slot (receive F peer st ev).2.2 peer out.attachmentId = new := by
  have hslot := feed_slot F st.1 st.2 ev.now peer (out.envelope i)
  rw [show (out.envelope i).attachmentId = out.attachmentId from rfl, hreap, hfeed] at hslot
  obtain ⟨hresult, hnew⟩ := Prod.mk.inj hslot
  rw [receive, Outgoing.decode_payload hadm hi hpayload]
  exact ⟨congrArg some hresult, hnew⟩

/-- A chunk of another attachment only reaps the file's completion time. -/
theorem receive_other (hkeyed : st.1.Keyed) {e : FileChunkEnvelope}
    (hdecode : decode ev.payload = .ok e) (hother : e.attachmentId ≠ out.attachmentId) :
    completedFile out.attachmentId (receive F peer st ev).1 (receive F peer st ev).2.2 = none ∧
      (receive F peer st ev).2.1.slot (receive F peer st ev).2.2 peer out.attachmentId =
        (st.1.slot st.2 peer out.attachmentId).reap ev.now := by
  have hkey : tableKey peer out.attachmentId ≠ tableKey peer e.attachmentId :=
    fun h => hother (tableKey_inj h).2.symm
  simp only [receive, hdecode]
  constructor
  · cases hres : (st.1.feed F st.2 ev.now peer e).1 with
    | progress | rejected => rfl
    | complete completion =>
      rw [completedFile, if_neg]
      rw [hkeyed.feed_complete hres]
      exact hother
  · obtain ⟨hentry, hdone⟩ := feed_other_key F st.1 st.2 ev.now hkey
    have hdir := feed_other_directory F st.1 st.2 ev.now peer hother.symm
    rw [AttachmentReassembler.slot, hentry, hdone, hdir]
    rfl

theorem keyed_receive (hkeyed : st.1.Keyed) (ev : Arrival) :
    (receive F peer st ev).2.1.Keyed := by
  rw [receive]
  split
  · exact hkeyed
  · exact hkeyed.feed

theorem keyed_receiveAll (evs : List Arrival) :
    ∀ {st : Receiver}, st.1.Keyed → (receiveAll F peer st evs).1.Keyed := by
  induction evs with
  | nil => exact fun hkeyed => hkeyed
  | cons ev evs ih => exact fun hkeyed => ih (keyed_receive hkeyed ev)

theorem Gathering.reap (h : Gathering out seen slot) (now : Int) : slot.reap now = slot := by
  rw [Slot.reap, h.completedAt]
  cases slot
  cases h.completedAt
  rfl

/-! ## The indices seen so far -/

/-- The indices of the file's chunks among the payloads. -/
def Outgoing.seenIndices (out : Outgoing) (evs : List Arrival) : Finset Nat :=
  (Finset.range out.chunkCount).filter fun i => ∃ ev ∈ evs, out.payload i = some ev.payload

theorem Outgoing.mem_seenIndices : i ∈ out.seenIndices evs ↔
    i < out.chunkCount ∧ ∃ ev ∈ evs, out.payload i = some ev.payload := by
  rw [Outgoing.seenIndices, Finset.mem_filter, Finset.mem_range]

theorem Outgoing.seenIndices_subset : out.seenIndices evs ⊆ Finset.range out.chunkCount :=
  Finset.filter_subset _ _

theorem Outgoing.covered_iff : out.Covered evs ↔ (out.seenIndices evs).card = out.chunkCount := by
  constructor
  · intro h
    have hall : out.seenIndices evs = Finset.range out.chunkCount := by
      refine Finset.Subset.antisymm seenIndices_subset fun i hi => ?_
      have hi := Finset.mem_range.mp hi
      exact mem_seenIndices.mpr ⟨hi, h i hi⟩
    rw [hall, Finset.card_range]
  · intro h i hi
    exact (mem_seenIndices.mp (mem_of_card_eq seenIndices_subset h hi)).2

/-- No two chunks of a file have the same payload. -/
theorem Outgoing.payload_inj (hadm : out.Admissible) {i j : Nat} (hi : i < out.chunkCount)
    (hj : j < out.chunkCount) {data : Bytes} (hpi : out.payload i = some data)
    (hpj : out.payload j = some data) : i = j := by
  have heq := (decode_payload hadm hi hpi).symm.trans (decode_payload hadm hj hpj)
  exact congrArg chunkIndex (Except.ok.inj heq)

theorem Outgoing.seenIndices_append_own (hadm : out.Admissible) (hi : i < out.chunkCount)
    (hpayload : out.payload i = some ev.payload) :
    out.seenIndices (evs ++ [ev]) = insert i (out.seenIndices evs) := by
  ext j
  rw [Finset.mem_insert, mem_seenIndices, mem_seenIndices]
  constructor
  · rintro ⟨hj, ev', hmem, hpj⟩
    rcases List.mem_append.mp hmem with hmem | hmem
    · exact .inr ⟨hj, ev', hmem, hpj⟩
    · rw [List.mem_singleton.mp hmem] at hpj
      exact .inl (payload_inj hadm hj hi hpj hpayload)
  · rintro (rfl | ⟨hj, ev', hmem, hpj⟩)
    · exact ⟨hi, ev, by simp, hpayload⟩
    · exact ⟨hj, ev', List.mem_append_left _ hmem, hpj⟩

theorem Outgoing.seenIndices_append_other (hadm : out.Admissible) {e : FileChunkEnvelope}
    (hdecode : decode ev.payload = .ok e) (hother : e.attachmentId ≠ out.attachmentId) :
    out.seenIndices (evs ++ [ev]) = out.seenIndices evs := by
  ext j
  rw [mem_seenIndices, mem_seenIndices]
  constructor
  · rintro ⟨hj, ev', hmem, hpj⟩
    rcases List.mem_append.mp hmem with hmem | hmem
    · exact ⟨hj, ev', hmem, hpj⟩
    · rw [List.mem_singleton.mp hmem] at hpj
      have heq := (decode_payload hadm hj hpj).symm.trans hdecode
      exact absurd (congrArg FileChunkEnvelope.attachmentId (Except.ok.inj heq)).symm hother
  · rintro ⟨hj, ev', hmem, hpj⟩
    exact ⟨hj, ev', List.mem_append_left _ hmem, hpj⟩

/-- The arrival that completes the set of chunks is a chunk not seen before. -/
theorem Outgoing.firstAt_own (hadm : out.Admissible) (hsent : out.Sent ev)
    (hfirst : FirstAt out.Covered evs ev) :
    ∃ i < out.chunkCount, out.payload i = some ev.payload ∧ i ∉ out.seenIndices evs ∧
      insert i (out.seenIndices evs) ⊆ Finset.range out.chunkCount ∧
      (insert i (out.seenIndices evs)).card = out.chunkCount := by
  obtain ⟨hmiss, hcover⟩ := hfirst
  rw [covered_iff] at hmiss hcover
  rcases hsent with ⟨i, hi, hpayload⟩ | ⟨e, hdecode, hother⟩
  · rw [seenIndices_append_own hadm hi hpayload] at hcover
    refine ⟨i, hi, hpayload, fun hseen => ?_, ?_, hcover⟩
    · rw [Finset.insert_eq_of_mem hseen] at hcover
      exact hmiss hcover
    · exact Finset.insert_subset (Finset.mem_range.mpr hi) seenIndices_subset
  · rw [seenIndices_append_other hadm hdecode hother] at hcover
    exact absurd hcover hmiss

/-! ## The phases of a run -/

/-- While chunks are missing, the file's slot gathers them and nothing is
reported complete. -/
theorem gathering_run (hadm : out.Admissible) (hkeyed : st.1.Keyed)
    (hstart : Gathering out ∅ (st.1.slot st.2 peer out.attachmentId))
    (hsent : ∀ ev ∈ evs, out.Sent ev) (hroom : RoomAlong F peer out st evs)
    (hmiss : ¬ out.Covered evs) :
    Gathering out (out.seenIndices evs) ((receiveAll F peer st evs).1.slot
        (receiveAll F peer st evs).2 peer out.attachmentId) ∧
      completions F peer out.attachmentId st evs = silence evs := by
  -- on the arrivals from the last one: what is gathered is what was seen
  induction evs using List.reverseRecOn with
  | nil =>
    have hnone : out.seenIndices [] = ∅ := by simp [Outgoing.seenIndices]
    exact ⟨hnone ▸ hstart, rfl⟩
  | append_singleton evs ev ih =>
    obtain ⟨hroom, hroomLast⟩ := roomAlong_append.mp hroom
    obtain ⟨hgather, hquiet⟩ := ih (fun ev hev => hsent ev (List.mem_append_left _ hev)) hroom
      fun hcover => hmiss (hcover.append _)
    have hkeyed' : (receiveAll F peer st evs).1.Keyed := keyed_receiveAll evs hkeyed
    rw [receiveAll_append, completions_append, hquiet]
    generalize receiveAll F peer st evs = st' at *
    suffices hstep : Gathering out (out.seenIndices (evs ++ [ev]))
          ((receive F peer st' ev).2.1.slot (receive F peer st' ev).2.2 peer out.attachmentId) ∧
        completedFile out.attachmentId (receive F peer st' ev).1 (receive F peer st' ev).2.2
          = none by
      refine ⟨hstep.1, ?_⟩
      rw [completions, hstep.2, silence, silence, List.map_append]
      rfl
    rcases hsent ev (by simp) with ⟨i, hi, hpayload⟩ | ⟨e, hdecode, hother⟩
    · have hroomNow := hroomLast.1 i hi hpayload
      rw [hgather.reap] at hroomNow
      rw [Outgoing.covered_iff, Outgoing.seenIndices_append_own hadm hi hpayload] at hmiss
      rw [Outgoing.seenIndices_append_own hadm hi hpayload]
      by_cases hseen : i ∈ out.seenIndices evs
      · have hfeed := hgather.feed_seen F ev.now peer hroomNow hi hseen
        obtain ⟨hres, hslot⟩ := receive_own hadm hi hpayload (hgather.reap _) hfeed
        rw [hres, hslot, Finset.insert_eq_of_mem hseen]
        exact ⟨hgather, rfl⟩
      · rcases hgather.feed_new F ev.now peer hroomNow hi hseen with
          ⟨-, received, expected, slot', hfeed, hnext⟩ | ⟨hcard, -⟩
        · obtain ⟨hres, hslot⟩ := receive_own hadm hi hpayload (hgather.reap _) hfeed
          rw [hres, hslot]
          exact ⟨hnext, rfl⟩
        · exact absurd hcard hmiss
    · obtain ⟨hres, hslot⟩ := receive_other hkeyed' hdecode hother
      rw [hres, hslot, hgather.reap, Outgoing.seenIndices_append_other hadm hdecode hother]
      exact ⟨hgather, rfl⟩

/-- The slot of a transfer completed at `t`. -/
structure Finished (t : Int) (slot : Slot) : Prop where
  entry : slot.entry = none
  completedAt : slot.completedAt = some t

/-- While the completion is remembered, nothing happens to the slot. -/
theorem finished_run (hadm : out.Admissible) {t : Int} (hsent : ∀ ev ∈ evs, out.Sent ev)
    (hyoung : ∀ ev ∈ evs, young ev.now t) :
    ∀ {st : Receiver}, st.1.Keyed → Finished t (st.1.slot st.2 peer out.attachmentId) →
      Finished t ((receiveAll F peer st evs).1.slot (receiveAll F peer st evs).2 peer
          out.attachmentId) ∧
        completions F peer out.attachmentId st evs = silence evs := by
  induction evs with
  | nil => exact fun _ hfin => ⟨hfin, rfl⟩
  | cons ev evs ih =>
    intro st hkeyed hfin
    have hreap : (st.1.slot st.2 peer out.attachmentId).reap ev.now =
        st.1.slot st.2 peer out.attachmentId := by
      have hnow : young ev.now t = true := hyoung ev List.mem_cons_self
      rw [Slot.reap, hfin.completedAt, Option.filter_some_pos hnow, ← hfin.completedAt]
    suffices hstep : Finished t ((receive F peer st ev).2.1.slot (receive F peer st ev).2.2 peer
          out.attachmentId) ∧
        completedFile out.attachmentId (receive F peer st ev).1 (receive F peer st ev).2.2
          = none by
      obtain ⟨hrest, hquiet⟩ := ih (fun ev hev => hsent ev (List.mem_cons_of_mem _ hev))
        (fun ev hev => hyoung ev (List.mem_cons_of_mem _ hev)) (keyed_receive hkeyed ev) hstep.1
      refine ⟨hrest, ?_⟩
      rw [completions, hstep.2, hquiet]
      rfl
    rcases hsent ev List.mem_cons_self with ⟨i, hi, hpayload⟩ | ⟨e, hdecode, hother⟩
    · have hfeed : feedSlot F ev.now peer (st.1.inFlightForPeer peer) st.1.inFlightBytes
          (out.envelope i) (st.1.slot st.2 peer out.attachmentId) =
            (.rejected .duplicateChunk, st.1.slot st.2 peer out.attachmentId) := by
        rw [feedSlot, if_pos]
        rw [hfin.completedAt]
        rfl
      obtain ⟨hres, hslot⟩ := receive_own hadm hi hpayload hreap hfeed
      rw [hres, hslot]
      exact ⟨hfin, rfl⟩
    · obtain ⟨hres, hslot⟩ := receive_other hkeyed hdecode hother
      rw [hres, hslot, hreap]
      exact ⟨hfin, rfl⟩

/-- What the arrival `ev` that completes the set of chunks does to a slot that
has gathered the others. -/
theorem completed_at (hadm : out.Admissible) (hsent : out.Sent ev)
    (hfirst : FirstAt out.Covered evs ev)
    (hgather : Gathering out (out.seenIndices evs) (st.1.slot st.2 peer out.attachmentId))
    (hroom : RoomAlong F peer out st [ev]) :
    (out.NameApart F →
      completedFile out.attachmentId (receive F peer st ev).1 (receive F peer st ev).2.2 =
          some (some out.bytes) ∧
        Finished ev.now ((receive F peer st ev).2.1.slot (receive F peer st ev).2.2 peer
          out.attachmentId)) ∧
    (¬ out.NameApart F →
      completedFile out.attachmentId (receive F peer st ev).1 (receive F peer st ev).2.2 ≠
        some (some out.bytes)) := by
  obtain ⟨i, hi, hpayload, hnew, hsub, hcard⟩ := Outgoing.firstAt_own hadm hsent hfirst
  have hroom := hroom.1 i hi hpayload
  have hreap := hgather.reap ev.now
  rw [hreap] at hroom
  constructor
  · intro hname
    obtain ⟨dir, hfeed, hlook⟩ :=
      hgather.feed_last ev.now peer hroom hi hnew hsub hcard hname
    obtain ⟨hres, hslot⟩ := receive_own hadm hi hpayload hreap hfeed
    have hdir : (receive F peer st ev).2.2 out.attachmentId = dir := congrArg Slot.dir hslot
    have hid : (out.completion F).attachmentId = out.attachmentId := rfl
    rw [hres, hslot, completedFile, if_pos hid]
    refine ⟨?_, rfl, rfl⟩
    show some (((receive F peer st ev).2.2 out.attachmentId).lookup (out.safeName F)) = _
    rw [hdir, hlook]
  · intro hname hfile
    obtain ⟨j, hname⟩ := not_forall.mp hname
    obtain ⟨hj, hname⟩ := Classical.not_imp.mp hname
    generalize hfeed : feedSlot F ev.now peer (st.1.inFlightForPeer peer) st.1.inFlightBytes
      (out.envelope i) (st.1.slot st.2 peer out.attachmentId) = fed
    obtain ⟨result, new⟩ := fed
    obtain ⟨hres, hslot⟩ := receive_own hadm hi hpayload hreap hfeed
    cases result with
    | progress | rejected =>
      rw [hres] at hfile
      cases hfile
    | complete completion =>
      obtain ⟨hurl, hgone⟩ := hgather.feed_last_collides F ev.now peer hroom hi hnew hcard hj
        (not_not.mp hname) hfeed
      have hdir : (receive F peer st ev).2.2 out.attachmentId = new.dir := congrArg Slot.dir hslot
      rw [hres, completedFile] at hfile
      split at hfile
      · rw [hurl, hdir, hgone] at hfile
        cases hfile
      · cases hfile

variable {pre post : List Arrival}

/-- One round, from an empty slot to the chunk that completes the set. -/
theorem round (hadm : out.Admissible) (hkeyed : st.1.Keyed)
    (hstart : Gathering out ∅ (st.1.slot st.2 peer out.attachmentId))
    (hsent : ∀ e ∈ pre ++ ev :: post, out.Sent e)
    (hroom : RoomAlong F peer out st (pre ++ ev :: post))
    (hfirst : FirstAt out.Covered pre ev) :
    ∃ file, completions F peer out.attachmentId st (pre ++ ev :: post) =
        silence pre ++ file ::
          completions F peer out.attachmentId (receiveAll F peer st (pre ++ [ev])) post ∧
      (out.NameApart F → file = some (some out.bytes) ∧
        Finished ev.now ((receiveAll F peer st (pre ++ [ev])).1.slot
          (receiveAll F peer st (pre ++ [ev])).2 peer out.attachmentId)) ∧
      (¬ out.NameApart F → file ≠ some (some out.bytes)) := by
  obtain ⟨hroomPre, hroomLast, -⟩ := roomAlong_append.mp hroom
  obtain ⟨hgather, hquiet⟩ := gathering_run hadm hkeyed hstart
    (fun e he => hsent e (List.mem_append_left _ he)) hroomPre hfirst.1
  obtain ⟨hwhole, hbroken⟩ := completed_at hadm (hsent ev (by simp)) hfirst hgather
    ⟨hroomLast, trivial⟩
  refine ⟨_, ?_, ?_, hbroken⟩
  · rw [completions_append, hquiet, completions, receiveAll_append]
    rfl
  · rw [receiveAll_append]
    exact hwhole

/-- The receiver with old completion times forgotten. -/
def forgetOld (now : Int) (st : Receiver) : Receiver :=
  ({ st.1 with completedAttachmentIds := st.1.completedAttachmentIds.retain fun _ t => young now t },
    st.2)

theorem slot_forgetOld {now : Int} {a : AttachmentId} :
    ((forgetOld now st).1.slot (forgetOld now st).2 peer a).reap now =
      (st.1.slot st.2 peer a).reap now := by
  simp [forgetOld, AttachmentReassembler.slot, Slot.reap, Option.filter_filter]

theorem receive_forgetOld {e : FileChunkEnvelope} (hdecode : decode ev.payload = .ok e) :
    receive F peer (forgetOld ev.now st) ev = receive F peer st ev := by
  have htwice : (st.1.completedAttachmentIds.retain fun _ t => young ev.now t).retain
      (fun _ t => young ev.now t) = st.1.completedAttachmentIds.retain fun _ t => young ev.now t :=
    AList.ext (by simp [AList.retain, List.filter_filter])
  simp only [receive, hdecode, AttachmentReassembler.feed, slot_forgetOld]
  simp only [forgetOld, htwice]
  rfl

theorem Outgoing.Sent.decodes (hadm : out.Admissible) (h : out.Sent ev) :
    ∃ e, decode ev.payload = .ok e := by
  rcases h with ⟨i, hi, hpayload⟩ | ⟨e, hdecode, -⟩
  · exact ⟨_, decode_payload hadm hi hpayload⟩
  · exact ⟨e, hdecode⟩

/-- The first arrival after the completion is forgotten finds an empty slot. -/
theorem completions_forgetOld (hadm : out.Admissible) (hsent : out.Sent ev) :
    completions F peer out.attachmentId st (ev :: evs) =
      completions F peer out.attachmentId (forgetOld ev.now st) (ev :: evs) := by
  obtain ⟨e, hdecode⟩ := hsent.decodes hadm
  rw [completions, completions, receive_forgetOld hdecode]

theorem roomAlong_forgetOld (hadm : out.Admissible) (hsent : out.Sent ev)
    (hroom : RoomAlong F peer out st (ev :: evs)) :
    RoomAlong F peer out (forgetOld ev.now st) (ev :: evs) := by
  obtain ⟨e, hdecode⟩ := hsent.decodes hadm
  rw [RoomAlong, receive_forgetOld hdecode]
  refine ⟨fun i hi hpayload => ?_, hroom.2⟩
  rw [slot_forgetOld]
  exact hroom.1 i hi hpayload

/-- From the first arrival at which a completion at `t` is forgotten, the
transfer starts over: a completion is reported exactly when all chunks come
again. -/
theorem silent_late_iff (hadm : out.Admissible) (hname : out.NameApart F) {t : Int}
    (hkeyed : st.1.Keyed) (hfin : Finished t (st.1.slot st.2 peer out.attachmentId))
    (hold : ¬ young ev.now t) (hsent : ∀ e ∈ ev :: evs, out.Sent e)
    (hroom : RoomAlong F peer out st (ev :: evs)) :
    completions F peer out.attachmentId st (ev :: evs) = silence (ev :: evs) ↔
      ¬ out.Covered (ev :: evs) := by
  have hev : out.Sent ev := hsent ev List.mem_cons_self
  have hkeyed' : (forgetOld ev.now st).1.Keyed := hkeyed
  have hstart : Gathering out ∅
      ((forgetOld ev.now st).1.slot (forgetOld ev.now st).2 peer out.attachmentId) := by
    refine ⟨?_, .inl ⟨hfin.entry, rfl⟩, fun i hi => absurd hi (Finset.notMem_empty i)⟩
    have hdone : st.1.completedAttachmentIds.lookup (tableKey peer out.attachmentId) = some t :=
      hfin.completedAt
    show (st.1.completedAttachmentIds.retain _).lookup _ = none
    rw [AList.lookup_retain, hdone, Option.filter_some_neg (Bool.eq_false_iff.mpr hold)]
  have hroom' := roomAlong_forgetOld hadm hev hroom
  rw [completions_forgetOld hadm hev]
  constructor
  · intro hquiet hcover
    obtain ⟨pre, last, post, hsplit, hfirst⟩ := exists_firstAt Outgoing.not_covered_nil hcover
    rw [hsplit] at hsent hroom' hquiet
    obtain ⟨file, hcompletions, hwhole, -⟩ := round hadm hkeyed' hstart hsent hroom' hfirst
    rw [hcompletions, (hwhole hname).1, silence, silence, List.map_append] at hquiet
    cases (List.cons.inj (List.append_cancel_left hquiet)).1
  · intro hmiss
    exact (gathering_run hadm hkeyed' hstart hsent hroom' hmiss).2

/-- After a completion at `t`: nothing more is reported, unless all chunks come
again once it is forgotten. -/
theorem silent_after_iff (hadm : out.Admissible) (hname : out.NameApart F) {t : Int}
    (hkeyed : st.1.Keyed) (hfin : Finished t (st.1.slot st.2 peer out.attachmentId))
    (hsent : ∀ e ∈ evs, out.Sent e) (hroom : RoomAlong F peer out st evs) :
    completions F peer out.attachmentId st evs = silence evs ↔
      ¬ out.Covered (evs.dropWhile fun later => young later.now t) := by
  have hsplit := List.takeWhile_append_dropWhile (p := fun later => young later.now t) (l := evs)
  have hyoung : ∀ e ∈ evs.takeWhile fun later => young later.now t, young e.now t :=
    List.all_eq_true.mp List.all_takeWhile
  have hold : ∀ {e rest}, (evs.dropWhile fun later => young later.now t) = e :: rest →
      ¬ young e.now t := by
    intro e rest hlate hnow
    have hhead := List.head?_dropWhile_not (fun later : Arrival => young later.now t) evs
    rw [hlate] at hhead
    simp only [List.head?_cons, hnow] at hhead
    cases hhead
  generalize (evs.takeWhile fun later => young later.now t) = early at hsplit hyoung
  generalize (evs.dropWhile fun later => young later.now t) = late at hsplit hold
  subst hsplit
  obtain ⟨hfin', hquiet⟩ := finished_run hadm (fun e he => hsent e (List.mem_append_left _ he))
    hyoung hkeyed hfin
  have hroom' := (roomAlong_append.mp hroom).2
  rw [completions_append, hquiet, silence, silence, List.map_append, List.append_cancel_left_eq]
  cases late with
  | nil => exact ⟨fun _ => Outgoing.not_covered_nil, fun _ => rfl⟩
  | cons ev late =>
    exact silent_late_iff hadm hname (keyed_receiveAll early hkeyed) hfin' (hold rfl)
      (fun e he => hsent e (List.mem_append_right _ he)) hroom'

/-! ## The condition -/

/-- Exactly one completion is reported, at the feed with which every chunk has
been seen, and the file at its url then holds the bytes that were sent. -/
def ArrivesWhole (F : Foundation) (peer : Bytes) (out : Outgoing) (st : Receiver)
    (evs : List Arrival) : Prop :=
  ∃ pre ev post, evs = pre ++ ev :: post ∧ FirstAt out.Covered pre ev ∧
    completions F peer out.attachmentId st evs =
      silence pre ++ some (some out.bytes) :: silence post

/-- Every chunk comes again, counting from the first feed 24 hours or more after
the one that completed the set. -/
def Outgoing.ResentLate (out : Outgoing) (evs : List Arrival) : Prop :=
  ∃ pre ev post, evs = pre ++ ev :: post ∧ FirstAt out.Covered pre ev ∧
    out.Covered (post.dropWhile fun later => young later.now ev.now)

/-- Chunks that arrive within a day of each other are not sent late. -/
theorem Outgoing.not_resentLate {out : Outgoing} {evs : List Arrival}
    (hclose : ∀ ev ∈ evs, ∀ later ∈ evs, young later.now ev.now) : ¬ out.ResentLate evs := by
  rintro ⟨pre, ev, post, rfl, -, hcover⟩
  have hnil : (post.dropWhile fun later => young later.now ev.now) = [] := by
    rw [List.dropWhile_eq_nil_iff]
    intro later hlater
    exact hclose ev (by simp) later (by simp [hlater])
  rw [hnil] at hcover
  exact Outgoing.not_covered_nil hcover

/-! ## Two files of one byte -/

/-- A file of one byte under the given name. -/
def oneByteFile (filename : String) : Outgoing where
  attachmentId := FixedBytes.replicate 16 7
  bytes := [1]
  mime := "text/plain"
  filename := filename

/-- A sender. -/
def samplePeer : Bytes := List.replicate 33 5

/-- The receiver of a fresh start, with nothing on disk. -/
def freshReceiver : Receiver := (fresh, fun _ => ∅)

/-- The file's one chunk, and the same chunk again five seconds later. -/
def sentTwice (out : Outgoing) : List Arrival :=
  [⟨0, (out.payload 0).getD []⟩, ⟨5, (out.payload 0).getD []⟩]

theorem oneByteFile_chunkCount (filename : String) : (oneByteFile filename).chunkCount = 1 := by
  simp [Outgoing.chunkCount, oneByteFile, maxChunkPlaintextBytes]

theorem oneByteFile_sent (filename : String) (hadm : (oneByteFile filename).Admissible) :
    (∀ ev ∈ sentTwice (oneByteFile filename), (oneByteFile filename).Sent ev) ∧
      (oneByteFile filename).Covered (sentTwice (oneByteFile filename)) ∧
      ¬ (oneByteFile filename).ResentLate (sentTwice (oneByteFile filename)) := by
  have hpayload : (oneByteFile filename).payload 0 =
      some (((oneByteFile filename).payload 0).getD []) := by
    obtain ⟨data, hdata⟩ := Option.isSome_iff_exists.mp (Outgoing.payload_isSome hadm 0)
    rw [hdata]
    rfl
  have hcount := oneByteFile_chunkCount filename
  refine ⟨?_, ?_, ?_⟩
  · intro ev hev
    refine .inl ⟨0, by rw [hcount]; exact Nat.zero_lt_one, ?_⟩
    rcases List.mem_pair.mp hev with rfl | rfl <;> exact hpayload
  · intro i hi
    rw [hcount] at hi
    obtain rfl : i = 0 := by omega
    exact ⟨_, List.mem_cons_self, hpayload⟩
  · refine Outgoing.not_resentLate fun ev hev later hlater => ?_
    rcases List.mem_pair.mp hev with rfl | rfl <;>
      rcases List.mem_pair.mp hlater with rfl | rfl <;> simp [young, partialTTL]

end Pizzini.Attachments
