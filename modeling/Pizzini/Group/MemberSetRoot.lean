import Mathlib.Data.Finset.Dedup
import Pizzini.Group.ChatGroup

/-!
# What the member-set root commits to

`memberSetRoot` hashes the member table: a domain tag, the number of rows, and
for each row, in the order of the peer ids, 76 bytes. This module is about the
bytes under the hash.

- `byteLexLess` is the lexicographic order on byte strings, so the sorted table
  does not depend on the order of the members.
- A row of 76 bytes determines what it was made from, `GroupMember.rootEntry`:
  all of a member but the display name and the step from pending to active.

So two member tables have the same bytes if and only if they have the same set
of entries (`memberSetRootInput_canonical`).
-/

namespace Pizzini.Group

open Wire

/-! ## The bytes under the hash -/

/-- The bytes that `memberSetRoot(of:)` hashes; `none` is a trap. -/
def memberSetRootInput (members : List GroupMember) : Option Bytes :=
  if members.length < 2 ^ 32 ∧ ∀ m ∈ members, m.peerId.length = identityKeySize then
    let sorted := members.insertionSort fun a b => ¬ byteLexLess b.peerId a.peerId
    some (memberSetDomainTag ++ beBytes 4 sorted.length ++
      (sorted.map GroupMember.rootRow).flatten)
  else none

theorem memberSetRootOf_eq (env : GroupEnv) (members : List GroupMember) :
    memberSetRootOf env members = (memberSetRootInput members).map env.hash := by
  unfold memberSetRootOf memberSetRootInput
  split
  · rfl
  · rfl

/-- What a row stands for. -/
structure RootEntry where
  peerId : Bytes
  role : GroupRole
  joinedAtEpoch : UInt64
  removed : Bool
  addedBy : Option Bytes
deriving DecidableEq

def GroupMember.rootEntry (m : GroupMember) : RootEntry :=
  ⟨m.peerId, m.role, m.joinedAtEpoch, m.status = .removed, m.addedBy⟩

/-- The set of a table's entries. -/
def rootEntries (members : List GroupMember) : Finset RootEntry :=
  (members.map GroupMember.rootEntry).toFinset

/-- One row for each peer, with whole keys, and no key that reads as none. -/
structure WholeRows (members : List GroupMember) : Prop where
  distinct : (members.map GroupMember.peerId).Nodup
  peerId : ∀ m ∈ members, m.peerId.length = identityKeySize
  addedBy : ∀ m ∈ members, ∀ added, m.addedBy = some added →
    added.length = identityKeySize ∧ added ≠ List.replicate identityKeySize 0

/-! ## The order of the rows -/

/-- The hand-written comparison is the lexicographic order of lists. -/
theorem byteLexLess_iff : ∀ {a b : Bytes}, byteLexLess a b = true ↔ a < b
  | [], [] => ⟨nofun, fun h => absurd h (List.lt_irrefl [])⟩
  | [], b :: bs => ⟨fun _ => List.nil_lt_cons b bs, fun _ => rfl⟩
  | a :: as, [] => ⟨nofun, fun h => absurd h (List.not_lt_nil _)⟩
  | a :: as, b :: bs => by
    rw [byteLexLess, List.cons_lt_cons_iff]
    by_cases hab : a = b
    · rw [if_neg (not_not.mpr hab), byteLexLess_iff]
      subst hab
      simp [UInt8.lt_irrefl]
    · rw [if_pos hab]
      simp [hab]

/-- The relation that the rows are sorted by, on their entries. -/
def RootEntry.Before (a b : RootEntry) : Prop := ¬ byteLexLess b.peerId a.peerId

instance : DecidableRel RootEntry.Before := fun _ _ => inferInstanceAs (Decidable (¬ _))

theorem RootEntry.before_iff {a b : RootEntry} : a.Before b ↔ a.peerId ≤ b.peerId := by
  rw [Before, byteLexLess_iff, List.not_lt]

instance : Std.Total RootEntry.Before :=
  ⟨fun a b => by
    rw [RootEntry.before_iff, RootEntry.before_iff]
    exact List.le_total a.peerId b.peerId⟩

instance : IsTrans RootEntry RootEntry.Before :=
  ⟨fun a b c hab hbc => by
    rw [RootEntry.before_iff] at hab hbc ⊢
    exact List.le_trans hab hbc⟩

/-- The entries in the order of the hash. -/
def sortedEntries (members : List GroupMember) : List RootEntry :=
  (members.map GroupMember.rootEntry).insertionSort RootEntry.Before

theorem sortedEntries_eq (members : List GroupMember) :
    sortedEntries members =
      (members.insertionSort fun a b => ¬ byteLexLess b.peerId a.peerId).map
        GroupMember.rootEntry :=
  (List.map_insertionSort (fun a b : GroupMember => ¬ byteLexLess b.peerId a.peerId)
    RootEntry.Before GroupMember.rootEntry members fun _ _ _ _ => Iff.rfl).symm

theorem mem_sortedEntries {members : List GroupMember} {e : RootEntry} :
    e ∈ sortedEntries members ↔ e ∈ rootEntries members := by
  rw [sortedEntries, List.mem_insertionSort, rootEntries, List.mem_toFinset]

/-- With one row for each peer the set of entries determines their order. -/
theorem sortedEntries_congr {ms ms' : List GroupMember} (hms : WholeRows ms) (hms' : WholeRows ms')
    (heq : rootEntries ms = rootEntries ms') : sortedEntries ms = sortedEntries ms' := by
  have hnodup : ∀ {l : List GroupMember}, WholeRows l → (l.map GroupMember.rootEntry).Nodup := by
    intro l hl
    have hpeers := hl.distinct
    rw [show l.map GroupMember.peerId =
      (l.map GroupMember.rootEntry).map RootEntry.peerId by rw [List.map_map]; rfl] at hpeers
    exact hpeers.of_map
  have hperm : (ms.map GroupMember.rootEntry).Perm (ms'.map GroupMember.rootEntry) :=
    List.perm_of_nodup_nodup_toFinset_eq (hnodup hms) (hnodup hms') heq
  have hinj : ∀ a ∈ ms.map GroupMember.rootEntry, ∀ b ∈ ms.map GroupMember.rootEntry,
      a.peerId = b.peerId → a = b := by
    intro a ha b hb hpeer
    obtain ⟨m, hm, rfl⟩ := List.mem_map.mp ha
    obtain ⟨m', hm', rfl⟩ := List.mem_map.mp hb
    rw [List.inj_on_of_nodup_map hms.distinct hm hm' hpeer]
  refine List.Perm.eq_of_pairwise (fun a b ha hb hab hba => ?_)
    (List.pairwise_insertionSort RootEntry.Before _) (List.pairwise_insertionSort RootEntry.Before _)
    (((List.perm_insertionSort _ _).trans hperm).trans (List.perm_insertionSort _ _).symm)
  rw [RootEntry.before_iff] at hab hba
  have ha := (List.mem_insertionSort _).mp ha
  have hb := hperm.symm.subset ((List.mem_insertionSort _).mp hb)
  exact hinj a ha b hb (List.le_antisymm hab hba)

/-! ## Rows -/

/-- `addedByBlock` of an entry. -/
def RootEntry.addedByBlock (e : RootEntry) : Bytes :=
  match e.addedBy with
  | some added =>
    if added.length = identityKeySize then added else List.replicate identityKeySize 0
  | none => List.replicate identityKeySize 0

/-- The row of an entry; `rootRow` sees of a member only its entry. -/
def RootEntry.row (e : RootEntry) : Bytes :=
  e.peerId ++ [e.role.wireByte] ++ u64Bytes e.joinedAtEpoch ++ [if e.removed then 0 else 1] ++
    e.addedByBlock

theorem rootEntry_row (m : GroupMember) : m.rootEntry.row = m.rootRow := by
  have hstatus : (if m.rootEntry.removed then (0 : UInt8) else 1) = m.status.canonicalRootByte := by
    show (if decide (m.status = .removed) then (0 : UInt8) else 1) = _
    cases m.status with
    | active => rfl
    | pendingSKDM => rfl
    | removed => rfl
  rw [RootEntry.row, hstatus]
  rfl

/-- What `WholeRows` says of an entry. -/
structure RootEntry.Whole (e : RootEntry) : Prop where
  peerId : e.peerId.length = identityKeySize
  addedBy : ∀ added, e.addedBy = some added →
    added.length = identityKeySize ∧ added ≠ List.replicate identityKeySize 0

theorem WholeRows.entry {members : List GroupMember} (h : WholeRows members) {e : RootEntry}
    (he : e ∈ sortedEntries members) : e.Whole := by
  rw [mem_sortedEntries, rootEntries, List.mem_toFinset] at he
  obtain ⟨m, hm, rfl⟩ := List.mem_map.mp he
  exact ⟨h.peerId m hm, h.addedBy m hm⟩

theorem RootEntry.Whole.addedByBlock_eq {e : RootEntry} (h : e.Whole) :
    e.addedByBlock = e.addedBy.getD (List.replicate identityKeySize 0) := by
  unfold addedByBlock
  cases hadded : e.addedBy with
  | none => rfl
  | some added => exact if_pos (h.addedBy added hadded).1

theorem RootEntry.Whole.length_addedByBlock {e : RootEntry} (h : e.Whole) :
    e.addedByBlock.length = identityKeySize := by
  rw [h.addedByBlock_eq]
  cases hadded : e.addedBy with
  | none => exact List.length_replicate
  | some added => exact (h.addedBy added hadded).1

theorem RootEntry.Whole.length_row {e : RootEntry} (h : e.Whole) : e.row.length = 76 := by
  rw [row, List.length_append, h.length_addedByBlock]
  simp only [List.length_append, List.length_singleton, length_u64Bytes, h.peerId, identityKeySize]

/-- A row determines its entry. -/
theorem RootEntry.Whole.row_inj {e e' : RootEntry} (h : e.Whole) (h' : e'.Whole)
    (heq : e.row = e'.row) : e = e' := by
  obtain ⟨heq, hadded⟩ :=
    List.append_inj' heq (h.length_addedByBlock.trans h'.length_addedByBlock.symm)
  rw [h.addedByBlock_eq, h'.addedByBlock_eq] at hadded
  obtain ⟨heq, hremoved⟩ := List.append_inj' heq rfl
  obtain ⟨heq, hjoined⟩ := List.append_inj' heq (by rw [length_u64Bytes, length_u64Bytes])
  obtain ⟨hpeer, hrole⟩ := List.append_inj' heq rfl
  have hrole : e.role = e'.role := by
    have hbytes := congrArg GroupRole.ofWireByte (List.singleton_inj.mp hrole)
    rw [GroupRole.ofWireByte_wireByte, GroupRole.ofWireByte_wireByte] at hbytes
    exact Option.some.inj hbytes
  have hremoved : e.removed = e'.removed := by
    have hbytes := List.singleton_inj.mp hremoved
    cases hr : e.removed <;> cases hr' : e'.removed <;> simp [hr, hr'] at hbytes ⊢
  -- a recorded key is not the block of zeros
  have hadded : e.addedBy = e'.addedBy := by
    cases ha : e.addedBy with
    | none =>
      cases ha' : e'.addedBy with
      | none => rfl
      | some added =>
        rw [ha, ha'] at hadded
        exact absurd hadded.symm (h'.addedBy added ha').2
    | some added =>
      cases ha' : e'.addedBy with
      | none =>
        rw [ha, ha'] at hadded
        exact absurd hadded (h.addedBy added ha).2
      | some added' =>
        rw [ha, ha'] at hadded
        exact congrArg some hadded
  cases e
  cases e'
  cases hpeer
  cases hrole
  cases u64Bytes_inj hjoined
  cases hremoved
  cases hadded
  rfl

/-! ## The whole table -/

/-- A map that is injective between the entries of two lists is on the lists. -/
theorem map_inj_of_mem {α β : Type} {f : α → β} : ∀ {l l' : List α},
    (∀ a ∈ l, ∀ b ∈ l', f a = f b → a = b) → l.map f = l'.map f → l = l'
  | [], [], _, _ => rfl
  | [], _ :: _, _, h => nomatch h
  | _ :: _, [], _, h => nomatch h
  | a :: l, b :: l', hinj, h => by
    obtain ⟨hab, htail⟩ := List.cons_eq_cons.mp h
    rw [hinj a List.mem_cons_self b List.mem_cons_self hab]
    refine congrArg _ (map_inj_of_mem (fun a' ha' b' hb' => ?_) htail)
    exact hinj a' (List.mem_cons_of_mem _ ha') b' (List.mem_cons_of_mem _ hb')

/-- The bytes are those of the sorted entries. -/
theorem WholeRows.input_eq {members : List GroupMember} (h : WholeRows members) :
    memberSetRootInput members =
      if (sortedEntries members).length < 256 ^ 4 then
        some (memberSetDomainTag ++ beBytes 4 (sortedEntries members).length ++
          ((sortedEntries members).map RootEntry.row).flatten)
      else none := by
  have hrow : RootEntry.row ∘ GroupMember.rootEntry = GroupMember.rootRow := funext rootEntry_row
  rw [memberSetRootInput, sortedEntries_eq, List.length_map, List.map_map, hrow,
    List.length_insertionSort]
  by_cases hlen : members.length < 2 ^ 32
  · have hfits : members.length < 256 ^ 4 := hlen
    rw [if_pos ⟨hlen, h.peerId⟩, if_pos hfits]
    simp only [List.length_insertionSort]
  · have hlong : ¬members.length < 256 ^ 4 := hlen
    rw [if_neg fun hsize => hlen hsize.1, if_neg hlong]

/-- The bytes determine the entries, in their order. -/
theorem sortedEntries_of_input {ms ms' : List GroupMember} (hms : WholeRows ms)
    (hms' : WholeRows ms') {bytes : Bytes} (h : memberSetRootInput ms = some bytes)
    (h' : memberSetRootInput ms' = some bytes) : sortedEntries ms = sortedEntries ms' := by
  rw [hms.input_eq, Option.ite_none_right_eq_some] at h
  rw [hms'.input_eq, Option.ite_none_right_eq_some] at h'
  obtain ⟨hlt, hbytes⟩ := h
  obtain ⟨hlt', hbytes'⟩ := h'
  have heq := Option.some.inj (hbytes.trans hbytes'.symm)
  rw [List.append_assoc, List.append_assoc] at heq
  obtain ⟨hcount, hrows⟩ := List.append_inj (List.append_cancel_left heq)
    (by rw [length_beBytes, length_beBytes])
  have hcount : (sortedEntries ms).length = (sortedEntries ms').length := by
    have hnat := congrArg beNat hcount
    rwa [beNat_beBytes hlt, beNat_beBytes hlt'] at hnat
  have hwidth : ∀ {l : List GroupMember}, WholeRows l →
      ((sortedEntries l).map RootEntry.row).map List.length =
        List.replicate (sortedEntries l).length 76 := by
    intro l hl
    rw [List.map_map, List.eq_replicate_iff]
    refine ⟨List.length_map _, fun n hn => ?_⟩
    obtain ⟨e, he, rfl⟩ := List.mem_map.mp hn
    exact (hl.entry he).length_row
  have hlists : (sortedEntries ms).map RootEntry.row = (sortedEntries ms').map RootEntry.row := by
    refine List.eq_iff_flatten_eq.mpr ⟨hrows, ?_⟩
    rw [hwidth hms, hwidth hms', hcount]
  refine map_inj_of_mem (fun e he e' he' heq => ?_) hlists
  exact (hms.entry he).row_inj (hms'.entry he') heq

/-- The bytes under the hash do not change when the table is permuted, nor when
members are given other names or are taken from pending to active, and they
determine the set of entries. -/
theorem memberSetRootInput_canonical {ms ms' : List GroupMember} (hms : WholeRows ms)
    (hms' : WholeRows ms') :
    (ms.Perm ms' → memberSetRootInput ms = memberSetRootInput ms') ∧
      (rootEntries ms = rootEntries ms' → memberSetRootInput ms = memberSetRootInput ms') ∧
      ∀ bytes, memberSetRootInput ms = some bytes → memberSetRootInput ms' = some bytes →
        rootEntries ms = rootEntries ms' := by
  have hset : rootEntries ms = rootEntries ms' → memberSetRootInput ms = memberSetRootInput ms' := by
    intro heq
    rw [hms.input_eq, hms'.input_eq, sortedEntries_congr hms hms' heq]
  refine ⟨fun hperm => hset ?_, hset, fun bytes h h' => ?_⟩
  · exact List.toFinset_eq_of_perm _ _ (hperm.map GroupMember.rootEntry)
  · ext e
    rw [← mem_sortedEntries, ← mem_sortedEntries, sortedEntries_of_input hms hms' h h']

/-- A table of two members and its permutation. -/
theorem memberSetRootInput_canonical_swapped :
    let row (b : UInt8) (status : MemberStatus) : GroupMember :=
      ⟨List.replicate identityKeySize b, "", .member, 3, status, none⟩
    memberSetRootInput [row 2 .active, row 1 .removed] =
        memberSetRootInput [row 1 .removed, row 2 .active] ∧
      (memberSetRootInput [row 1 .removed, row 2 .active]).isSome := by
  intro row
  have hwhole : WholeRows [row 1 .removed, row 2 .active] :=
    ⟨by decide, by decide, by simp [row]⟩
  have hwhole' : WholeRows [row 2 .active, row 1 .removed] :=
    ⟨by decide, by decide, by simp [row]⟩
  have hperm : [row 2 .active, row 1 .removed].Perm [row 1 .removed, row 2 .active] :=
    List.Perm.swap _ _ _
  exact ⟨(memberSetRootInput_canonical hwhole' hwhole).1 hperm, rfl⟩

end Pizzini.Group
