import Mathlib.Algebra.Order.BigOperators.Group.List
import Mathlib.Algebra.Order.Group.Nat
import Pizzini.Attachments.AttachmentReassembler

/-!
# Attachments of different peers

The app runs two reassemblers, one for direct messages and one for groups, over
one sandbox. Their tables are keyed by peer and id, the directories by id alone.
This module compares a run with the run that is left when the events of all
peers but one are taken out.

The two meet on disk when two peers use one id: a chunk of either replaces the
staged chunk of the other. They also meet in the disk budget, which all peers
share on purpose, and in the completion times, which any peer's chunk reaps.
`other_peers_do_not_touch`: with the ids apart, the budget not used up by
others, and a clock that does not run backwards, the directories of the peer's
attachments are the same in both runs. The runs are compared with a relation
between their states (`Alike`) that every event keeps.
-/

namespace Pizzini.Attachments

open Wire FileChunkEnvelope AttachmentReassembler

/-! ## The two reassemblers -/

/-- The reassembler for direct messages and the one for groups
(ChatStore.swift:451–462). -/
inductive Role where
  | direct
  | group
  deriving DecidableEq

/-- The reassemblers' tables, and the sandbox they share. -/
structure Store where
  tables : Role → AttachmentReassembler
  sandbox : Sandbox

/-- What can happen to a reassembler: a chunk comes in, a partial transfer is
discarded (a group id that changes under way, ChatStoreGroups.swift:1208–1217),
or the stale ones are reaped (ChatStore.swift:4793–4817). -/
inductive Action where
  | feed (role : Role) (peer : Bytes) (e : FileChunkEnvelope)
  | discard (role : Role) (peer : Bytes) (attachmentId : AttachmentId)
  | reap

/-- An action at a time. -/
structure Event where
  now : Int
  action : Action

/-- Discard transfers one after the other. -/
def discardAll (r : AttachmentReassembler) (sandbox : Sandbox)
    (stale : List (Bytes × AttachmentId)) : AttachmentReassembler × Sandbox :=
  stale.foldl (fun st x => st.1.discard st.2 x.1 x.2) (r, sandbox)

namespace Store

/-- Put back the tables of one role, and the sandbox. -/
def set (s : Store) (role : Role) (new : AttachmentReassembler × Sandbox) : Store where
  tables := Function.update s.tables role new.1
  sandbox := new.2

/-- The walk over one reassembler's stale entries. -/
def reap (s : Store) (role : Role) (now : Int) : Store :=
  s.set role (discardAll (s.tables role) s.sandbox ((s.tables role).staleEntries now))

/-- One event. -/
def step (F : Foundation) (s : Store) (ev : Event) : Store :=
  match ev.action with
  | .feed role peer e => s.set role ((s.tables role).feed F s.sandbox ev.now peer e).2
  | .discard role peer a => s.set role ((s.tables role).discard s.sandbox peer a)
  | .reap => (s.reap .direct ev.now).reap .group ev.now

/-- A run. -/
def run (F : Foundation) (s : Store) (evs : List Event) : Store := evs.foldl (step F) s

/-- The app's start: empty tables over whatever is on disk. -/
def launch (sandbox : Sandbox) : Store := ⟨fun _ => fresh, sandbox⟩

end Store

/-- The peer and the attachment an event is about; reaping is about none. -/
def Event.about (ev : Event) : Option (Bytes × AttachmentId) :=
  match ev.action with
  | .feed _ peer e => some (peer, e.attachmentId)
  | .discard _ peer a => some (peer, a)
  | .reap => none

/-- The event is not another peer's. -/
def Event.keptFor (peer : Bytes) (ev : Event) : Bool :=
  match ev.about with
  | some (peer', _) => peer' = peer
  | none => true

/-- The run with every event of the other peers removed. -/
def withoutOthers (peer : Bytes) (evs : List Event) : List Event := evs.filter (·.keptFor peer)

/-! ## Discarding -/

section Discarding

variable (r : AttachmentReassembler) (sandbox : Sandbox) (stale : List (Bytes × AttachmentId))

theorem lookup_discardAll (key : Bytes) : (discardAll r sandbox stale).1.pending.lookup key =
    if key ∈ stale.map (fun x => tableKey x.1 x.2) then none else r.pending.lookup key := by
  induction stale generalizing r sandbox with
  | nil => rfl
  | cons x stale ih =>
    show (discardAll (r.discard sandbox x.1 x.2).1 (r.discard sandbox x.1 x.2).2
      stale).1.pending.lookup key = _
    rw [ih, List.map_cons]
    by_cases hin : key ∈ stale.map fun x => tableKey x.1 x.2
    · rw [if_pos hin, if_pos (List.mem_cons_of_mem _ hin)]
    · by_cases hx : key = tableKey x.1 x.2
      · rw [if_neg hin, if_pos (hx ▸ List.mem_cons_self), hx]
        exact AList.lookup_erase _ _
      · rw [if_neg hin, if_neg (by simp [hx, hin])]
        exact AList.lookup_erase_ne hx

theorem completed_discardAll : (discardAll r sandbox stale).1.completedAttachmentIds =
    r.completedAttachmentIds := by
  induction stale generalizing r sandbox with
  | nil => rfl
  | cons x stale ih => exact ih (r.discard sandbox x.1 x.2).1 (r.discard sandbox x.1 x.2).2

theorem sandbox_discardAll (a : AttachmentId) : (discardAll r sandbox stale).2 a =
    if a ∈ stale.map Prod.snd then ∅ else sandbox a := by
  induction stale generalizing r sandbox with
  | nil => rfl
  | cons x stale ih =>
    show (discardAll (r.discard sandbox x.1 x.2).1 (r.discard sandbox x.1 x.2).2 stale).2 a = _
    rw [ih, List.map_cons]
    by_cases hin : a ∈ stale.map Prod.snd
    · rw [if_pos hin, if_pos (List.mem_cons_of_mem _ hin)]
    · by_cases hx : a = x.2
      · rw [if_neg hin, if_pos (hx ▸ List.mem_cons_self), hx]
        exact Function.update_self ..
      · rw [if_neg hin, if_neg (by simp [hx, hin])]
        exact Function.update_of_ne hx ..

theorem mem_staleEntries {now : Int} {x : Bytes × AttachmentId} : x ∈ r.staleEntries now ↔
    ∃ key p, r.pending.lookup key = some p ∧ p.expiresAt < now ∧ (p.peer, p.attachmentId) = x := by
  simp only [staleEntries, List.mem_map, List.mem_filter, decide_eq_true_eq]
  constructor
  · rintro ⟨p, ⟨⟨⟨key, _⟩, hmem, rfl⟩, hold⟩, hx⟩
    exact ⟨key, _, AList.lookup_eq_some_iff.mpr hmem, hold, hx⟩
  · rintro ⟨key, p, hlook, hold, hx⟩
    exact ⟨p, ⟨⟨⟨key, p⟩, AList.lookup_eq_some_iff.mp hlook, rfl⟩, hold⟩, hx⟩

end Discarding

/-! ## Two runs compared -/

/-- Under a peer's key there is nothing but that peer's. -/
theorem AttachmentReassembler.Keyed.filter_peer {r : AttachmentReassembler} (h : r.Keyed)
    (peer : Bytes) (a : AttachmentId) :
    (r.pending.lookup (tableKey peer a)).filter (fun p => p.peer = peer) =
      r.pending.lookup (tableKey peer a) := by
  cases hp : r.pending.lookup (tableKey peer a) with
  | none => rfl
  | some p => exact Option.filter_some_pos (decide_eq_true (h.entry hp).1)

theorem AttachmentReassembler.Keyed.filter_other {r : AttachmentReassembler} (h : r.Keyed)
    {peer other : Bytes} (hother : other ≠ peer) (a : AttachmentId) :
    (r.pending.lookup (tableKey other a)).filter (fun p => p.peer = peer) = none := by
  cases hp : r.pending.lookup (tableKey other a) with
  | none => rfl
  | some p =>
    refine Option.filter_some_neg (decide_eq_false ?_)
    rw [(h.entry hp).1]
    exact hother

/-- The bytes that one peer has in flight. -/
def AttachmentReassembler.inFlightBytesOf (r : AttachmentReassembler) (peer : Bytes) : Nat :=
  ((r.pending.retain fun _ p => p.peer = peer).entries.map fun p => p.2.bytesWritten).sum

/-- Tables of a run and of the run without other peers, for a peer whose ids are
`mine`: the peer's entries are the same and no other entry has one of its ids. A
completion may be forgotten in the first and still on record in the second, but
only if it was old by the time `clock`. -/
structure TablesAlike (peer : Bytes) (mine : AttachmentId → Prop) (clock : Int)
    (r r' : AttachmentReassembler) : Prop where
  keyed : r.Keyed
  pending : ∀ key, (r.pending.lookup key).filter (fun p => p.peer = peer) =
    r'.pending.lookup key
  apart : ∀ {key p}, r.pending.lookup key = some p → (mine p.attachmentId ↔ p.peer = peer)
  kept : ∀ {a t}, r.completedAttachmentIds.lookup (tableKey peer a) = some t →
    r'.completedAttachmentIds.lookup (tableKey peer a) = some t
  forgotten : ∀ {a t}, r'.completedAttachmentIds.lookup (tableKey peer a) = some t →
    r.completedAttachmentIds.lookup (tableKey peer a) = some t ∨ partialTTL ≤ clock - t

/-- States of the two runs: alike tables, and the same files under the peer's
ids. -/
structure Alike (peer : Bytes) (mine : AttachmentId → Prop) (clock : Int) (s s' : Store) :
    Prop where
  tables : ∀ role, TablesAlike peer mine clock (s.tables role) (s'.tables role)
  sandbox : ∀ a, mine a → s.sandbox a = s'.sandbox a

namespace TablesAlike

variable {peer other : Bytes} {mine : AttachmentId → Prop} {clock now : Int}
  {r r' : AttachmentReassembler} {sandbox sandbox' : Sandbox} {e : FileChunkEnvelope}
  {F : Foundation}

theorem mono (h : TablesAlike peer mine clock r r') (hle : clock ≤ now) :
    TablesAlike peer mine now r r' where
  keyed := h.keyed
  pending := h.pending
  apart := h.apart
  kept := h.kept
  forgotten := fun ht => (h.forgotten ht).imp id fun hold => by omega

theorem entries_perm (h : TablesAlike peer mine clock r r') :
    (r.pending.retain fun _ p => p.peer = peer).entries.Perm r'.pending.entries := by
  refine AList.entries_perm fun key => ?_
  rw [AList.lookup_retain]
  exact h.pending key

/-- The peer has as many transfers in flight in both runs. -/
theorem inFlightForPeer_eq (h : TablesAlike peer mine clock r r') :
    r.inFlightForPeer peer = r'.inFlightForPeer peer := by
  refine (AList.entries_perm fun key => ?_).length_eq
  rw [AList.lookup_retain, AList.lookup_retain, ← h.pending key, Option.filter_filter]
  simp

/-- What is in flight in the second run is what the peer has in flight in the
first. -/
theorem inFlightBytes_eq (h : TablesAlike peer mine clock r r') :
    r'.inFlightBytes = r.inFlightBytesOf peer := by
  rw [inFlightBytes, inFlightBytesOf]
  exact (h.entries_perm.map _).sum_eq.symm

/-- Completion times are the same in both runs once old ones are left out. -/
theorem young_eq (h : TablesAlike peer mine clock r r') (hnow : clock ≤ now) (a : AttachmentId) :
    (r.completedAttachmentIds.lookup (tableKey peer a)).filter (young now) =
      (r'.completedAttachmentIds.lookup (tableKey peer a)).filter (young now) := by
  refine Option.ext fun t => ?_
  rw [Option.filter_eq_some_iff, Option.filter_eq_some_iff]
  constructor
  · rintro ⟨ht, hyoung⟩
    exact ⟨h.kept ht, hyoung⟩
  · rintro ⟨ht, hyoung⟩
    refine ⟨(h.forgotten ht).resolve_right fun hold => ?_, hyoung⟩
    have hyoung : now - t < partialTTL := of_decide_eq_true hyoung
    omega

/-- After a chunk, the entry it may have changed is of its peer and id. -/
theorem feed_apart (h : TablesAlike peer mine clock r r')
    (hid : mine e.attachmentId ↔ other = peer) {key : Bytes} {p : Pending}
    (hp : (r.feed F sandbox now other e).2.1.pending.lookup key = some p) :
    mine p.attachmentId ↔ p.peer = peer := by
  by_cases hkey : key = tableKey other e.attachmentId
  · obtain ⟨hpeer, ha⟩ := (h.keyed.feed).entry (hkey ▸ hp)
    rw [hpeer, ha]
    exact hid
  · rw [(feed_other_key F r sandbox now hkey).1] at hp
    exact h.apart hp

/-- A chunk of another peer, in the first run only. -/
theorem feed_other (h : TablesAlike peer mine clock r r') (hnow : clock ≤ now)
    (hother : other ≠ peer) (hid : ¬ mine e.attachmentId) :
    TablesAlike peer mine now (r.feed F sandbox now other e).2.1 r' where
  keyed := h.keyed.feed
  pending := by
    intro key
    rw [← h.pending key]
    by_cases hkey : key = tableKey other e.attachmentId
    · subst hkey
      rw [h.keyed.feed.filter_other hother, h.keyed.filter_other hother]
    · rw [(feed_other_key F r sandbox now hkey).1]
  apart := h.feed_apart (iff_of_false hid hother)
  kept := by
    intro a t ht
    have hkey : tableKey peer a ≠ tableKey other e.attachmentId :=
      fun heq => hother (tableKey_inj heq).1.symm
    rw [(feed_other_key F r sandbox now hkey).2] at ht
    exact h.kept (Option.filter_eq_some_iff.mp ht).1
  forgotten := by
    intro a t ht
    have hkey : tableKey peer a ≠ tableKey other e.attachmentId :=
      fun heq => hother (tableKey_inj heq).1.symm
    rw [(feed_other_key F r sandbox now hkey).2]
    rcases h.forgotten ht with ht | hold
    · by_cases hyoung : young now t
      · exact .inl (Option.filter_eq_some_iff.mpr ⟨ht, hyoung⟩)
      · have hyoung : ¬ now - t < partialTTL := of_decide_eq_false (Bool.eq_false_iff.mpr hyoung)
        exact .inr (by omega)
    · exact .inr (by omega)

/-- The budget check, for a chunk that it refuses only if the peer's own bytes
would be too many. -/
theorem budget_eq (h : TablesAlike peer mine clock r r') {incoming budget : Nat}
    (hfair : wouldExceedDiskBudget r.inFlightBytes incoming budget →
      wouldExceedDiskBudget (r.inFlightBytesOf peer) incoming budget) :
    wouldExceedDiskBudget r.inFlightBytes incoming budget =
      wouldExceedDiskBudget r'.inFlightBytes incoming budget := by
  have hle : r.inFlightBytesOf peer ≤ r.inFlightBytes := by
    rw [inFlightBytes, inFlightBytesOf]
    exact (List.filter_sublist.map _).sum_le_sum fun _ _ => Nat.zero_le _
  rw [h.inFlightBytes_eq, Bool.eq_iff_iff]
  refine ⟨hfair, fun howns => ?_⟩
  simp only [wouldExceedDiskBudget, Bool.or_eq_true, decide_eq_true_eq] at howns ⊢
  omega

/-- `feed` reads the bytes in flight only in the budget check. -/
theorem feedSlot_budget {forPeer inFlight inFlight' : Nat} (slot : Slot)
    (hbudget : wouldExceedDiskBudget inFlight e.chunkBytes.length globalInFlightByteBudget =
      wouldExceedDiskBudget inFlight' e.chunkBytes.length globalInFlightByteBudget) :
    feedSlot F now peer forPeer inFlight e slot = feedSlot F now peer forPeer inFlight' e slot := by
  have hrefusal : ∀ entry, refusal F inFlight entry e = refusal F inFlight' entry e := by
    intro entry
    rw [refusal, refusal, hbudget]
  simp only [feedSlot, feedEntry, hrefusal]

/-- A chunk of the peer does the same in both runs. -/
theorem feed_own (h : TablesAlike peer mine clock r r') (hnow : clock ≤ now)
    (hid : mine e.attachmentId) (hdir : sandbox e.attachmentId = sandbox' e.attachmentId)
    (hfair : wouldExceedDiskBudget r.inFlightBytes e.chunkBytes.length globalInFlightByteBudget →
      wouldExceedDiskBudget (r.inFlightBytesOf peer) e.chunkBytes.length
        globalInFlightByteBudget) :
    (r.feed F sandbox now peer e).2.2 e.attachmentId =
        (r'.feed F sandbox' now peer e).2.2 e.attachmentId ∧
      TablesAlike peer mine now (r.feed F sandbox now peer e).2.1
        (r'.feed F sandbox' now peer e).2.1 := by
  have hslot : (r.slot sandbox peer e.attachmentId).reap now =
      (r'.slot sandbox' peer e.attachmentId).reap now := by
    have hentry : r.pending.lookup (tableKey peer e.attachmentId) =
        r'.pending.lookup (tableKey peer e.attachmentId) := by
      rw [← h.pending, h.keyed.filter_peer]
    simp only [slot, Slot.reap, hentry, hdir, h.young_eq hnow]
  have hfeed := feed_slot F r sandbox now peer e
  rw [feedSlot_budget _ (h.budget_eq hfair), h.inFlightForPeer_eq, hslot,
    ← feed_slot F r' sandbox' now peer e] at hfeed
  -- the slots after the chunk agree in all three parts
  have hnew := (Prod.mk.inj hfeed).2
  have hentry := congrArg Slot.entry hnew
  have hdone := congrArg Slot.completedAt hnew
  refine ⟨congrArg Slot.dir hnew, h.keyed.feed, ?_, h.feed_apart (iff_of_true hid rfl), ?_, ?_⟩
  · intro key
    by_cases hkey : key = tableKey peer e.attachmentId
    · subst hkey
      exact (h.keyed.feed.filter_peer peer e.attachmentId).trans hentry
    · rw [(feed_other_key F r sandbox now hkey).1, (feed_other_key F r' sandbox' now hkey).1]
      exact h.pending key
  · intro a t ht
    by_cases hkey : tableKey peer a = tableKey peer e.attachmentId
    · rw [hkey] at ht ⊢
      exact hdone.symm.trans ht
    · rw [(feed_other_key F r sandbox now hkey).2] at ht
      rw [(feed_other_key F r' sandbox' now hkey).2, ← h.young_eq hnow, ht]
  · intro a t ht
    by_cases hkey : tableKey peer a = tableKey peer e.attachmentId
    · rw [hkey] at ht ⊢
      exact .inl (hdone.trans ht)
    · rw [(feed_other_key F r' sandbox' now hkey).2] at ht
      rw [(feed_other_key F r sandbox now hkey).2, h.young_eq hnow, ht]
      exact .inl rfl

/-- Discarding in both runs, where what is discarded in the first only is
another peer's, under an id that is not the peer's. -/
theorem discardAll (h : TablesAlike peer mine clock r r')
    {stale stale' : List (Bytes × AttachmentId)} (hsub : ∀ x ∈ stale', x ∈ stale)
    (hrest : ∀ x ∈ stale, x ∈ stale' ∨ x.1 ≠ peer) :
    TablesAlike peer mine clock (Attachments.discardAll r sandbox stale).1
      (Attachments.discardAll r' sandbox' stale').1 where
  keyed := by
    intro key p hp
    rw [lookup_discardAll] at hp
    split at hp
    · cases hp
    · exact h.keyed key p hp
  pending := by
    intro key
    rw [lookup_discardAll, lookup_discardAll, ← h.pending key]
    by_cases hin' : key ∈ stale'.map fun x => tableKey x.1 x.2
    · obtain ⟨x, hx, hkey⟩ := List.mem_map.mp hin'
      rw [if_pos hin', if_pos (List.mem_map.mpr ⟨x, hsub x hx, hkey⟩)]
      rfl
    · rw [if_neg hin']
      by_cases hin : key ∈ stale.map fun x => tableKey x.1 x.2
      · obtain ⟨x, hx, rfl⟩ := List.mem_map.mp hin
        have hother := (hrest x hx).resolve_left fun hx' => hin' (List.mem_map.mpr ⟨x, hx', rfl⟩)
        rw [if_pos hin, h.keyed.filter_other hother, Option.filter_none]
      · rw [if_neg hin]
  apart := by
    intro key p hp
    rw [lookup_discardAll] at hp
    split at hp
    · cases hp
    · exact h.apart hp
  kept := by
    intro a t
    rw [completed_discardAll, completed_discardAll]
    exact h.kept
  forgotten := by
    intro a t
    rw [completed_discardAll, completed_discardAll]
    exact h.forgotten

end TablesAlike

/-! ## One event -/

theorem Store.set_self (s : Store) (role : Role) : s.set role (s.tables role, s.sandbox) = s := by
  simp [Store.set]

namespace Alike

variable {peer other : Bytes} {mine : AttachmentId → Prop} {clock now : Int} {s s' : Store}
  {role : Role} {F : Foundation}

theorem set (h : Alike peer mine clock s s') (hnow : clock ≤ now)
    {new new' : AttachmentReassembler × Sandbox} (htables : TablesAlike peer mine now new.1 new'.1)
    (hsandbox : ∀ a, mine a → new.2 a = new'.2 a) :
    Alike peer mine now (s.set role new) (s'.set role new') where
  tables := by
    intro role'
    by_cases hrole : role' = role
    · subst hrole
      simpa [Store.set] using htables
    · simpa [Store.set, Function.update_of_ne hrole] using (h.tables role').mono hnow
  sandbox := hsandbox

/-- A step of one role in the first run only. -/
theorem set_left (h : Alike peer mine clock s s') (hnow : clock ≤ now)
    {new : AttachmentReassembler × Sandbox}
    (htables : TablesAlike peer mine now new.1 (s'.tables role))
    (hsandbox : ∀ a, mine a → new.2 a = s.sandbox a) :
    Alike peer mine now (s.set role new) s' := by
  rw [← s'.set_self role]
  exact h.set hnow htables fun a ha => (hsandbox a ha).trans (h.sandbox a ha)

theorem feed_own (h : Alike peer mine clock s s') (hnow : clock ≤ now) {e : FileChunkEnvelope}
    (hid : mine e.attachmentId)
    (hfair : wouldExceedDiskBudget (s.tables role).inFlightBytes e.chunkBytes.length
        globalInFlightByteBudget →
      wouldExceedDiskBudget ((s.tables role).inFlightBytesOf peer) e.chunkBytes.length
        globalInFlightByteBudget) :
    Alike peer mine now (s.set role ((s.tables role).feed F s.sandbox now peer e).2)
      (s'.set role ((s'.tables role).feed F s'.sandbox now peer e).2) := by
  obtain ⟨hdir, htables⟩ := (h.tables role).feed_own (F := F) hnow hid (h.sandbox _ hid) hfair
  refine h.set hnow htables fun a ha => ?_
  by_cases hsame : a = e.attachmentId
  · rw [hsame]
    exact hdir
  · rw [feed_other_directory F _ _ _ _ hsame, feed_other_directory F _ _ _ _ hsame]
    exact h.sandbox a ha

theorem feed_other (h : Alike peer mine clock s s') (hnow : clock ≤ now) {e : FileChunkEnvelope}
    (hother : other ≠ peer) (hid : ¬ mine e.attachmentId) :
    Alike peer mine now (s.set role ((s.tables role).feed F s.sandbox now other e).2) s' := by
  refine h.set_left hnow ((h.tables role).feed_other hnow hother hid) fun a ha => ?_
  exact feed_other_directory F _ _ _ _ fun hsame => hid (hsame ▸ ha)

theorem discardAll (h : Alike peer mine clock s s') (hnow : clock ≤ now)
    (stale stale' : List (Bytes × AttachmentId)) (hsub : ∀ x ∈ stale', x ∈ stale)
    (hrest : ∀ x ∈ stale, x ∈ stale' ∨ x.1 ≠ peer ∧ ¬ mine x.2) :
    Alike peer mine now (s.set role (Attachments.discardAll (s.tables role) s.sandbox stale))
      (s'.set role (Attachments.discardAll (s'.tables role) s'.sandbox stale')) := by
  refine h.set hnow (((h.tables role).mono hnow).discardAll hsub fun x hx =>
    (hrest x hx).imp id And.left) fun a ha => ?_
  have hiff : a ∈ stale.map Prod.snd ↔ a ∈ stale'.map Prod.snd := by
    simp only [List.mem_map]
    constructor
    · rintro ⟨x, hx, rfl⟩
      exact ⟨x, (hrest x hx).resolve_right fun hx' => hx'.2 ha, rfl⟩
    · rintro ⟨x, hx, rfl⟩
      exact ⟨x, hsub x hx, rfl⟩
  rw [sandbox_discardAll, sandbox_discardAll, h.sandbox a ha]
  simp only [hiff]

/-- Reaping finds the peer's stale transfers in both runs, and in the first one
those of others. -/
theorem reap (h : Alike peer mine clock s s') (hnow : clock ≤ now) :
    Alike peer mine now (s.reap role now) (s'.reap role now) := by
  have htables := h.tables role
  refine h.discardAll hnow _ _ (fun x hx => ?_) fun x hx => ?_
  · obtain ⟨key, p, hlook, hold, hx⟩ := (mem_staleEntries _).mp hx
    rw [← htables.pending key] at hlook
    exact (mem_staleEntries _).mpr ⟨key, p, (Option.filter_eq_some_iff.mp hlook).1, hold, hx⟩
  · obtain ⟨key, p, hlook, hold, rfl⟩ := (mem_staleEntries _).mp hx
    by_cases hpeer : p.peer = peer
    · refine .inl ((mem_staleEntries _).mpr ⟨key, p, ?_, hold, rfl⟩)
      rw [← htables.pending key, hlook]
      exact Option.filter_some_pos (decide_eq_true hpeer)
    · exact .inr ⟨hpeer, fun hmine => hpeer ((htables.apart hlook).mp hmine)⟩

end Alike

/-- The budget refuses a chunk of the peer only when the bytes the peer itself
has in flight would. -/
def BudgetFair (peer : Bytes) (s : Store) (ev : Event) : Prop :=
  match ev.action with
  | .feed role sender e => sender = peer →
    wouldExceedDiskBudget (s.tables role).inFlightBytes e.chunkBytes.length
      globalInFlightByteBudget →
    wouldExceedDiskBudget ((s.tables role).inFlightBytesOf peer) e.chunkBytes.length
      globalInFlightByteBudget
  | _ => True

/-- `BudgetFair` at every event of a run. -/
def BudgetFairAlong (F : Foundation) (peer : Bytes) : Store → List Event → Prop
  | _, [] => True
  | s, ev :: evs => BudgetFair peer s ev ∧ BudgetFairAlong F peer (s.step F ev) evs

/-- One event of the run, and the same event of the other run if it is kept. -/
theorem Alike.step {peer : Bytes} {mine : AttachmentId → Prop} {clock : Int} {s s' : Store}
    {F : Foundation} {ev : Event} (h : Alike peer mine clock s s') (hnow : clock ≤ ev.now)
    (hids : ∀ {sender a}, ev.about = some (sender, a) → (mine a ↔ sender = peer))
    (hfair : BudgetFair peer s ev) :
    Alike peer mine ev.now (s.step F ev) (if ev.keptFor peer then s'.step F ev else s') := by
  obtain ⟨now, action⟩ := ev
  cases action with
  | feed role sender e =>
    have hid := hids rfl
    by_cases hpeer : sender = peer
    · subst hpeer
      rw [if_pos (by simp [Event.keptFor, Event.about])]
      exact h.feed_own hnow (hid.mpr rfl) (hfair rfl)
    · rw [if_neg (by simp [Event.keptFor, Event.about, hpeer])]
      exact h.feed_other hnow hpeer fun hmine => hpeer (hid.mp hmine)
  | discard role sender a =>
    have hid := hids rfl
    by_cases hpeer : sender = peer
    · subst hpeer
      rw [if_pos (by simp [Event.keptFor, Event.about])]
      exact h.discardAll hnow [(sender, a)] [(sender, a)] (fun x hx => hx) fun x hx => .inl hx
    · rw [if_neg (by simp [Event.keptFor, Event.about, hpeer]), ← s'.set_self role]
      refine h.discardAll hnow [(sender, a)] [] (fun x hx => nomatch hx) ?_
      intro x hx
      obtain rfl := List.mem_singleton.mp hx
      exact .inr ⟨hpeer, fun hmine => hpeer (hid.mp hmine)⟩
  | reap =>
    rw [if_pos (by simp [Event.keptFor, Event.about])]
    exact (h.reap hnow).reap (Int.le_refl now)

/-! ## Runs -/

theorem Alike.run {peer : Bytes} {mine : AttachmentId → Prop} {F : Foundation}
    {evs : List Event} (hids : ∀ ev ∈ evs, ∀ {sender a}, ev.about = some (sender, a) →
      (mine a ↔ sender = peer))
    (hclock : evs.Pairwise fun ev later => ev.now ≤ later.now) :
    ∀ {clock : Int} {s s' : Store}, Alike peer mine clock s s' → (∀ ev ∈ evs, clock ≤ ev.now) →
      BudgetFairAlong F peer s evs →
      ∃ clock', Alike peer mine clock' (s.run F evs) (s'.run F (withoutOthers peer evs)) := by
  induction evs with
  | nil => exact fun h _ _ => ⟨_, h⟩
  | cons ev evs ih =>
    intro clock s s' h hnow hfair
    obtain ⟨hhead, htail⟩ := List.pairwise_cons.mp hclock
    have hstep := h.step (F := F) (hnow ev List.mem_cons_self) (hids ev List.mem_cons_self) hfair.1
    obtain ⟨clock', hrun⟩ := ih (fun ev hev => hids ev (List.mem_cons_of_mem _ hev)) htail hstep
      hhead hfair.2
    refine ⟨clock', ?_⟩
    rw [withoutOthers, List.filter_cons]
    split at hrun
    · next hkept =>
      rw [if_pos hkept]
      exact hrun
    · next hkept =>
      rw [if_neg hkept]
      exact hrun

theorem alike_launch (peer : Bytes) (mine : AttachmentId → Prop) (clock : Int)
    (sandbox : Sandbox) : Alike peer mine clock (Store.launch sandbox) (Store.launch sandbox) where
  tables := fun _ => {
    keyed := keyed_fresh
    pending := fun _ => rfl
    apart := fun hp => nomatch hp
    kept := fun ht => ht
    forgotten := fun ht => .inl ht }
  sandbox := fun _ _ => rfl

/-- One of the events is the peer's and about the attachment. -/
def Uses (evs : List Event) (peer : Bytes) (a : AttachmentId) : Prop :=
  ∃ ev ∈ evs, ev.about = some (peer, a)

/-- In every run in which no other peer uses an attachment id of the peer's, the
budget refuses a chunk of the peer's only for the peer's own bytes, and the
clock does not run backwards, the directories of the peer's attachments are as
in the run without the other peers' events. -/
theorem other_peers_do_not_touch (F : Foundation) (peer : Bytes) (sandbox : Sandbox)
    {evs : List Event}
    (hids : ∀ other ≠ peer, ∀ a, Uses evs other a → ¬ Uses evs peer a)
    (hclock : evs.Pairwise fun ev later => ev.now ≤ later.now)
    (hfair : BudgetFairAlong F peer (Store.launch sandbox) evs) {a : AttachmentId}
    (ha : Uses evs peer a) :
    ((Store.launch sandbox).run F evs).sandbox a =
      ((Store.launch sandbox).run F (withoutOthers peer evs)).sandbox a := by
  have hmine : ∀ ev ∈ evs, ∀ {sender a}, ev.about = some (sender, a) →
      (Uses evs peer a ↔ sender = peer) := by
    intro ev hev sender a habout
    constructor
    · intro huses
      by_contra hother
      exact hids sender hother a ⟨ev, hev, habout⟩ huses
    · rintro rfl
      exact ⟨ev, hev, habout⟩
  cases evs with
  | nil => rfl
  | cons ev evs =>
    have hstart : ∀ later ∈ ev :: evs, ev.now ≤ later.now := by
      intro later hlater
      rcases List.mem_cons.mp hlater with rfl | hlater
      · exact Int.le_refl _
      · exact (List.pairwise_cons.mp hclock).1 later hlater
    obtain ⟨_, halike⟩ := Alike.run hmine hclock (alike_launch peer _ ev.now sandbox) hstart hfair
    exact halike.sandbox a ha

/-! ## Two senders -/

/-- Chunk `index` of a file of two bytes whose id is sixteen times `id`. -/
def sampleChunk (id : UInt8) (index : Nat) (byte : UInt8) : FileChunkEnvelope where
  attachmentId := FixedBytes.replicate 16 id
  totalSize := 2
  chunkIndex := index
  chunkCount := 2
  mime := "text/plain"
  filename := "a.txt"
  chunkBytes := [byte]

/-- Two senders. -/
def alice : Bytes := List.replicate 33 1
def bob : Bytes := List.replicate 33 2

/-- Bob's file comes in whole between chunks of a file of Alice's. -/
def twoFiles : List Event :=
  [⟨0, .feed .direct bob (sampleChunk 7 0 1)⟩, ⟨1, .feed .direct alice (sampleChunk 8 0 2)⟩,
    ⟨2, .feed .direct bob (sampleChunk 7 1 3)⟩, ⟨3, .reap⟩]

theorem other_peers_do_not_touch_two_files :
    ((Store.launch fun _ => ∅).run asciiTables twoFiles).sandbox (FixedBytes.replicate 16 7) =
      ((Store.launch fun _ => ∅).run asciiTables (withoutOthers bob twoFiles)).sandbox
        (FixedBytes.replicate 16 7) := by
  refine other_peers_do_not_touch asciiTables bob _ ?_ ?_ ?_ ?_
  · rintro other hother a ⟨ev, hev, habout⟩ ⟨ev', hev', habout'⟩
    have hids : ∀ ev ∈ twoFiles, ∀ x ∈ ev.about,
        (x.1 = bob ↔ x.2 = FixedBytes.replicate 16 7) := by
      decide +kernel
    exact hother ((hids ev hev _ habout).mpr ((hids ev' hev' _ habout').mp rfl))
  · decide
  · refine ⟨fun _ hfull => ?_, fun hsender => ?_, fun _ hfull => ?_, trivial, trivial⟩
    · exact absurd hfull (by decide +kernel)
    · exact absurd hsender (by decide)
    · exact absurd hfull (by decide +kernel)
  · exact ⟨_, List.mem_cons_self, rfl⟩

/-- Between the chunks of Bob's file, Alice sends one to a group, under the
same id. -/
def oneId : List Event :=
  [⟨0, .feed .direct bob (sampleChunk 7 0 1)⟩, ⟨1, .feed .group alice (sampleChunk 7 0 2)⟩,
    ⟨2, .feed .direct bob (sampleChunk 7 1 3)⟩]

/-- Alice's chunk replaces the one Bob sent, and Bob's completed file has it. -/
theorem same_id_replaces_chunk :
    (((Store.launch fun _ => ∅).run asciiTables oneId).sandbox
        (FixedBytes.replicate 16 7)).lookup "a.txt" = some [2, 3] ∧
      (((Store.launch fun _ => ∅).run asciiTables (withoutOthers bob oneId)).sandbox
        (FixedBytes.replicate 16 7)).lookup "a.txt" = some [1, 3] := by
  decide +kernel

end Pizzini.Attachments
