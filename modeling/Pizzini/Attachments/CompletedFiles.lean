import Pizzini.Attachments.Isolation
import Pizzini.Attachments.Whole

/-!
# Completed files on disk (`AttachmentReassembler.swift:110–153, 251–379`)

A chat row points at the file of a completed attachment, and `feed` turns replays away so that
the bytes behind the row stay what they are. What remembers the completion is one
reassembler's table, for 24 hours and until the app ends; the file is in the directory of the
attachment id, which both reassemblers and all peers use. A transfer under the same id that
gets past the memory can write over the file when it completes, and takes the whole directory
with it when it fails, expires or is discarded.

`completed_files_kept`: files stay as long as every step spares them (`Spares`). What the table
of completions sees to of that is `replay_spared`.
-/

namespace Pizzini.Attachments

open Wire FileChunkEnvelope AttachmentReassembler Runs

/-! ## The life of the app -/

/-- What happens to the reassemblers, over several launches. -/
inductive Life where
  | event (ev : Event)
  /-- the process ends, and starts again over what is on disk -/
  | relaunch

/-- One step. -/
def Store.live (F : Foundation) (s : Store) : Life → Store
  | .event ev => s.step F ev
  | .relaunch => .launch s.sandbox

namespace AttachmentReassembler

variable (F : Foundation) (now : Int) (peer : Bytes) (forPeer inFlight : Nat)
  (e : FileChunkEnvelope)

/-- The entry of a chunk that gets written, with the chunk on record; none if the chunk is
turned away. -/
def taken (slot : Slot) : Option Pending :=
  if slot.completedAt.isSome then none
  else
    match slot.entry with
    | some entry =>
      if (refusal F inFlight entry e).isNone then some (entry.receive e) else none
    | none =>
      if perPeerPendingCap ≤ forPeer then none
      else if (refusal F inFlight (newEntry now peer e) e).isNone then
        some ((newEntry now peer e).receive e)
      else none

/-- What becomes of the directory once a chunk is written to it: the last chunk puts the file
together, or empties it. -/
def settle (entry : Pending) (dir : Directory) : Directory :=
  if entry.receivedIndices.card = entry.chunkCount then
    match finalize F entry dir with
    | (.ok _, dir) => dir
    | (.error _, _) => ∅
  else dir

variable {F now peer forPeer inFlight e}

theorem feedEntry_dir {entry : Pending} {slot : Slot} :
    (feedEntry F now inFlight entry e slot).2.dir =
      if (refusal F inFlight entry e).isNone then
        settle F (entry.receive e) (slot.dir.insert (chunkName e.chunkIndex) e.chunkBytes)
      else slot.dir := by
  rw [feedEntry]
  cases refusal F inFlight entry e with
  | some reason => rfl
  | none =>
    rw [Option.isNone_none, if_pos rfl, settle]
    by_cases hwhole : (entry.receive e).receivedIndices.card = (entry.receive e).chunkCount
    · simp only [if_pos hwhole]
      rcases finalize F (entry.receive e) (slot.dir.insert (chunkName e.chunkIndex) e.chunkBytes)
        with ⟨_ | _, _⟩
      · rfl
      · rfl
    · simp only [if_neg hwhole]

/-- A chunk that is turned away leaves the directory alone. -/
theorem feedSlot_dir {slot : Slot} :
    (feedSlot F now peer forPeer inFlight e slot).2.dir =
      match taken F now peer forPeer inFlight e slot with
      | none => slot.dir
      | some entry =>
        settle F entry (slot.dir.insert (chunkName e.chunkIndex) e.chunkBytes) := by
  have hentry : ∀ entry, (feedEntry F now inFlight entry e slot).2.dir =
      match (if (refusal F inFlight entry e).isNone then some (entry.receive e) else none) with
      | none => slot.dir
      | some entry => settle F entry (slot.dir.insert (chunkName e.chunkIndex) e.chunkBytes) := by
    intro entry
    rw [feedEntry_dir]
    split <;> rfl
  rw [feedSlot, taken]
  by_cases hdone : slot.completedAt.isSome
  · rw [if_pos hdone, if_pos hdone]
  · rw [if_neg hdone, if_neg hdone]
    cases slot.entry with
    | some entry => exact hentry entry
    | none =>
      by_cases hcap : perPeerPendingCap ≤ forPeer
      · simp only [if_pos hcap]
      · simp only [if_neg hcap]
        exact hentry _

end AttachmentReassembler

/-! ## Putting a file together -/

section Assembly

variable (F : Foundation) (entry : Pending) (dir : Directory)

/-- The staged chunks one after the other. -/
def assembled : Bytes :=
  ((List.range entry.chunkCount).map fun i => (dir.lookup (chunkName i)).getD []).flatten

/-- Every chunk is staged, their sizes come to what was claimed, and the file's name is none of
its own staging names. -/
structure Assembles : Prop where
  staged : ∀ i < entry.chunkCount, (dir.lookup (chunkName i)).isSome
  size : (assembled entry dir).length = entry.totalSize
  apart : ∀ i < entry.chunkCount, FilenameSanitizer.sanitize F entry.claimedFilename ≠ chunkName i

end Assembly

variable {F : Foundation} {entry : Pending} {dir : Directory} {s s₁ : Store}

/-- The concatenation loop writes to one file. -/
theorem lookup_appendChunks_ne {name name' : String} (hne : name' ≠ name) :
    ∀ {is : List Nat} {written : Nat} {dir : Directory},
      (appendChunks name is written dir).2.lookup name' = dir.lookup name' := by
  intro is
  induction is with
  | nil => exact rfl
  | cons i is ih =>
    intro written dir
    rw [appendChunks]
    split
    · rfl
    · rw [ih, AList.lookup_insert_ne hne]

/-- The files after the assembly. -/
theorem settle_assembles (h : Assembles F entry dir)
    (hlast : entry.receivedIndices.card = entry.chunkCount) {name : String}
    (hname : ∀ i < entry.chunkCount, name ≠ chunkName i) :
    (settle F entry dir).lookup name =
      if FilenameSanitizer.sanitize F entry.claimedFilename = name then
        some (assembled entry dir)
      else dir.lookup name := by
  have hapart : ∀ i ∈ List.range entry.chunkCount,
      FilenameSanitizer.sanitize F entry.claimedFilename ≠ chunkName i :=
    fun i hi => h.apart i (List.mem_range.mp hi)
  have hstaged : ∀ i ∈ List.range entry.chunkCount,
      (dir.insert (FilenameSanitizer.sanitize F entry.claimedFilename) []).lookup (chunkName i) =
        some ((dir.lookup (chunkName i)).getD []) := by
    intro i hi
    rw [AList.lookup_insert_ne (hapart i hi).symm]
    obtain ⟨bytes, hbytes⟩ := Option.isSome_iff_exists.mp (h.staged i (List.mem_range.mp hi))
    rw [hbytes]
    rfl
  obtain ⟨dir', heq, hlook⟩ := appendChunks_spec hapart 0 hstaged (AList.lookup_insert _)
  have hsize : 0 + ((List.range entry.chunkCount).map
      fun i => (dir.lookup (chunkName i)).getD []).flatten.length = entry.totalSize :=
    (Nat.zero_add _).trans h.size
  have hkept : dir' = (appendChunks (FilenameSanitizer.sanitize F entry.claimedFilename)
      (List.range entry.chunkCount) 0
      (dir.insert (FilenameSanitizer.sanitize F entry.claimedFilename) [])).2 := by
    rw [heq]
  have hnot : name ∉ (List.range entry.chunkCount).map chunkName := by
    intro hmem
    obtain ⟨i, hi, hsame⟩ := List.mem_map.mp hmem
    exact hname i (List.mem_range.mp hi) hsame.symm
  have hsettle : settle F entry dir = removeChunks (List.range entry.chunkCount) dir' := by
    simp only [settle, if_pos hlast, finalize, heq, hsize, ne_eq, not_true, if_false]
  rw [hsettle, lookup_removeChunks, if_neg hnot]
  split
  · next hsame =>
    rw [← hsame, hlook, List.nil_append]
    rfl
  · next hother =>
    rw [hkept, lookup_appendChunks_ne (Ne.symm hother), AList.lookup_insert_ne (Ne.symm hother)]

/-! ## What may happen to a completed file -/

section Sparing

variable (F : Foundation)

/-- The entry of a chunk that comes in and gets written. -/
def Store.takes (s : Store) (now : Int) (role : Role) (peer : Bytes) (e : FileChunkEnvelope) :
    Option Pending :=
  taken F now peer ((s.tables role).inFlightForPeer peer) (s.tables role).inFlightBytes e
    (((s.tables role).slot s.sandbox peer e.attachmentId).reap now)

/-- A chunk that gets written puts no other bytes at `name`: not by being staged there, and not
when it is the last one, which leaves a whole file beside `name`, or the same one there. -/
structure WritesBeside (name : String) (entry : Pending) (e : FileChunkEnvelope)
    (dir : Directory) : Prop where
  staging : chunkName e.chunkIndex = name → dir.lookup name = some e.chunkBytes
  last : entry.receivedIndices.card = entry.chunkCount →
    Assembles F entry (dir.insert (chunkName e.chunkIndex) e.chunkBytes) ∧
    (∀ i < entry.chunkCount, name ≠ chunkName i) ∧
    (FilenameSanitizer.sanitize F entry.claimedFilename = name →
      dir.lookup name = some (assembled entry (dir.insert (chunkName e.chunkIndex) e.chunkBytes)))

/-- A step that is no danger to the file at `url`. -/
def Spares (url : AttachmentId × String) (s : Store) : Life → Prop
  | .event ⟨now, .feed role peer e⟩ =>
    e.attachmentId = url.1 → ∀ entry, s.takes F now role peer e = some entry →
      WritesBeside F url.2 entry e (s.sandbox url.1)
  | .event ⟨_, .discard _ _ a⟩ => a ≠ url.1
  | .event ⟨now, .reap⟩ => ∀ role, url.1 ∉ ((s.tables role).staleEntries now).map Prod.snd
  | .relaunch => True

end Sparing

theorem Store.tables_set_ne {role role' : Role} (h : role' ≠ role)
    (new : AttachmentReassembler × Sandbox) : (s.set role new).tables role' = s.tables role' :=
  Function.update_of_ne h ..

/-- A chunk that comes in changes at most the directory of its attachment. -/
theorem sandbox_feed {now : Int} {role : Role} {peer : Bytes} {e : FileChunkEnvelope} :
    (s.live F (.event ⟨now, .feed role peer e⟩)).sandbox e.attachmentId =
      match s.takes F now role peer e with
      | none => s.sandbox e.attachmentId
      | some entry => settle F entry
          ((s.sandbox e.attachmentId).insert (chunkName e.chunkIndex) e.chunkBytes) := by
  have hslot := feed_slot F (s.tables role) s.sandbox now peer e
  exact (congrArg (fun x => x.2.dir) hslot).trans feedSlot_dir

theorem WritesBeside.lookup_settle {name : String} {entry : Pending} {e : FileChunkEnvelope}
    {dir : Directory} (h : WritesBeside F name entry e dir) :
    (settle F entry (dir.insert (chunkName e.chunkIndex) e.chunkBytes)).lookup name =
      dir.lookup name := by
  have hinsert : (dir.insert (chunkName e.chunkIndex) e.chunkBytes).lookup name =
      dir.lookup name := by
    rw [AList.lookup_insert_of_eq_or_ne]
    split
    · next hsame => exact (h.staging hsame.symm).symm
    · rfl
  by_cases hlast : entry.receivedIndices.card = entry.chunkCount
  · obtain ⟨hwhole, hname, hsame⟩ := h.last hlast
    rw [settle_assembles hwhole hlast hname]
    split
    · next heq => exact (hsame heq).symm
    · exact hinsert
  · rw [settle, if_neg hlast]
    exact hinsert

/-- Whatever spares the file leaves its bytes as they are. -/
theorem Spares.lookup {url : AttachmentId × String} {l : Life} (h : Spares F url s l) :
    ((s.live F l).sandbox url.1).lookup url.2 = (s.sandbox url.1).lookup url.2 := by
  match l with
  | .relaunch => rfl
  | .event ⟨now, .feed role peer e⟩ =>
    by_cases hid : e.attachmentId = url.1
    · rw [← hid, sandbox_feed]
      cases htakes : s.takes F now role peer e with
      | none => rfl
      | some entry =>
        rw [hid]
        exact (h hid entry htakes).lookup_settle
    · exact congrArg (AList.lookup url.2)
        (feed_other_directory F (s.tables role) s.sandbox now peer (Ne.symm hid))
  | .event ⟨_, .discard role peer a⟩ =>
    exact congrArg (AList.lookup url.2) (Function.update_of_ne (Ne.symm h) ..)
  | .event ⟨now, .reap⟩ =>
    have hgroup : (s.reap .direct now).tables .group = s.tables .group :=
      Store.tables_set_ne (by decide) _
    have hkept : (s.live F (.event ⟨now, .reap⟩)).sandbox url.1 = s.sandbox url.1 := by
      show (discardAll ((s.reap .direct now).tables .group) (discardAll _ s.sandbox _).2
        (((s.reap .direct now).tables .group).staleEntries now)).2 url.1 = s.sandbox url.1
      rw [hgroup, sandbox_discardAll, if_neg (h .group), sandbox_discardAll, if_neg (h .direct)]
    rw [hkept]

/-- While the completion is remembered, chunks of the same peer under the same id are no
danger. -/
theorem replay_spared {url : AttachmentId × String} {now t : Int} {role : Role} {peer : Bytes}
    {e : FileChunkEnvelope}
    (hmemo : (s.tables role).completedAttachmentIds.lookup (tableKey peer url.1) = some t)
    (hyoung : now - t < partialTTL) :
    Spares F url s (.event ⟨now, .feed role peer e⟩) := by
  intro hid entry htakes
  have hdone : (((s.tables role).slot s.sandbox peer e.attachmentId).reap now).completedAt =
      some t := by
    rw [hid, Slot.reap, slot, hmemo]
    exact Option.filter_some_pos (decide_eq_true hyoung)
  rw [Store.takes, taken, hdone] at htakes
  cases htakes

/-! ## Runs -/

/-- The app, and every completion so far with what was then at its url. -/
structure Watched where
  store : Store
  completed : List ((AttachmentId × String) × Option Bytes)

namespace Watched

variable (F : Foundation)

/-- What a step reports complete. -/
def reported (s : Store) : Life → Option Completion
  | .event ⟨now, .feed role peer e⟩ =>
    match ((s.tables role).feed F s.sandbox now peer e).1 with
    | .complete c => some c
    | _ => none
  | _ => none

/-- One step, with its completion on record. -/
def step (w : Watched) (l : Life) : Watched where
  store := w.store.live F l
  completed := w.completed ++ (reported F w.store l).toList.map fun c =>
    (c.url, ((w.store.live F l).sandbox c.url.1).lookup c.url.2)

/-- Every completed file is what it was. -/
def Unchanged (w : Watched) : Prop :=
  ∀ x ∈ w.completed, (w.store.sandbox x.1.1).lookup x.1.2 = x.2

/-- A step that is no danger to any completed file. -/
def SparesAll (w : Watched) (l : Life) : Prop := ∀ x ∈ w.completed, Spares F x.1 w.store l

instance (w : Watched) : Decidable w.Unchanged :=
  inferInstanceAs (Decidable (∀ x ∈ w.completed, (w.store.sandbox x.1.1).lookup x.1.2 = x.2))

variable {F}

theorem Unchanged.step {w : Watched} {l : Life} (h : w.Unchanged) (hspares : w.SparesAll F l) :
    (w.step F l).Unchanged := by
  intro x hx
  rcases List.mem_append.mp hx with hold | hnew
  · exact (hspares x hold).lookup.trans (h x hold)
  · obtain ⟨c, -, rfl⟩ := List.mem_map.mp hnew
    rfl

end Watched

/-! ## A file of one chunk -/

/-- The only chunk of a file of one byte. -/
def onlyChunk (byte : UInt8) : FileChunkEnvelope :=
  { sampleChunk 7 0 byte with
    totalSize := 1
    chunkCount := 1 }

/-- Bob's chunk comes in. -/
def arrival (now : Int) (byte : UInt8) : Life :=
  .event ⟨now, .feed .direct bob (onlyChunk byte)⟩

/-- Where Bob's file is. -/
def onlyUrl : AttachmentId × String := (FixedBytes.replicate 16 7, "a.txt")

/-- The app with empty directories. -/
def installed : Watched := ⟨.launch fun _ => ∅, []⟩

end Pizzini.Attachments
