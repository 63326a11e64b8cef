import Pizzini.Chat.ChatStore

/-!
# Logs and their table

`Saved x`: the table `messages` holds the rows of the logs, as they are saved, each under the
conversation it is in, and nothing else. Two kinds of rows are left out: `Unsaved`, the row of
an attachment that came in over a group, which nobody writes (`showUnsaved`), and the rows that
a failed write should have changed (`unwritten`).

An operation on `Chats` changes a log and then writes its rows, one after the other.
`SavedBut pending` is what holds in between: the rows in `pending` are still to be written.
-/

namespace Pizzini.Chat

open Wire

/-- The row of an inbound group attachment. -/
def Unsaved (s : Surface) (m : PersistedMessage) : Prop :=
  (∃ groupId, s = .group groupId) ∧ m.side = .peer ∧ m.kind = .attachment

namespace Chats

variable {x : Chats} {s s' : Surface} {m m' : PersistedMessage} {pending : List Nat}

/-- The row is in the log, or on disk. -/
def Holds (x : Chats) (s : Surface) (m : PersistedMessage) : Prop := m ∈ x.log s ∨ x.stored s m

/-- The table is the logs, less the rows that are only in memory; no write of the other rows has
failed, nor is it still to come. Where none throws, none has failed. -/
structure SavedBut (pending : List Nat) (x : Chats) : Prop where
  log_lt : ∀ s m, m ∈ x.log s → m.id < x.nextId
  row_lt : ∀ id row, x.messages.lookup id = some row → id < x.nextId
  row_id : ∀ id row, x.messages.lookup id = some row → row.2.id = id ∧ row.2.saved = row.2
  log_inj : ∀ s s' m m', m ∈ x.log s → m' ∈ x.log s' → m.id = m'.id → s = s' ∧ m = m'
  nodup : ∀ s, ((x.log s).map PersistedMessage.id).Nodup
  owner : ∀ s m, m ∈ x.log s → ∀ row, x.messages.lookup m.id = some row → row.1 = s
  stored_iff : ∀ id, id ∉ x.unwritten → id ∉ pending → ∀ s r, x.messages.lookup id = some (s, r) ↔
    ∃ m ∈ x.log s, m.id = id ∧ ¬Unsaved s m ∧ r = m.saved
  written : (∀ n, x.throws n = false) → x.unwritten = []

/-- The table is the logs, but for those rows. -/
abbrev Saved (x : Chats) : Prop := x.SavedBut []

theorem saved_start (throws : Nat → Bool) : (start throws).Saved where
  log_lt s m h := by cases h
  row_lt id row h := by cases h
  row_id id row h := by cases h
  log_inj s s' m m' h := by cases h
  nodup s := List.nodup_nil
  owner s m h := by cases h
  stored_iff id _ _ s r := by simp [start]
  written _ := rfl

theorem SavedBut.lookup_nextId (h : x.SavedBut pending) : x.messages.lookup x.nextId = none := by
  cases hlookup : x.messages.lookup x.nextId with
  | none => rfl
  | some row => exact absurd (h.row_lt _ _ hlookup) (Nat.lt_irrefl _)

/-! ## A row is written -/

@[simp] theorem log_upsertMessage : (x.upsertMessage s m).log = x.log := by
  rw [upsertMessage]
  split <;> rfl

@[simp] theorem nextId_upsertMessage : (x.upsertMessage s m).nextId = x.nextId := by
  rw [upsertMessage]
  split <;> rfl

theorem unwritten_upsertMessage : x.unwritten ⊆ (x.upsertMessage s m).unwritten := by
  rw [upsertMessage]
  split
  · exact List.subset_cons_self _ _
  · exact List.Subset.refl _

/-- A disk that never fails. -/
theorem written_upsertMessage (h : (∀ n, x.throws n = false) → x.unwritten = []) :
    (∀ n, (x.upsertMessage s m).throws n = false) → (x.upsertMessage s m).unwritten = [] := by
  rw [upsertMessage]
  split
  · next hthrows =>
    intro hnever
    cases hthrows.symm.trans (hnever x.writes)
  · exact h

/-- A row of a log is written under its conversation, or it is not written. -/
theorem SavedBut.lookup_upsertMessage (h : x.SavedBut pending) (hm : m ∈ x.log s) :
    (x.upsertMessage s m).messages = x.messages ∧ m.id ∈ (x.upsertMessage s m).unwritten ∨
      (x.upsertMessage s m).messages = x.messages.insert m.id (s, m.saved) ∧
        (x.upsertMessage s m).unwritten = x.unwritten := by
  have howner : ((x.messages.lookup m.id).map Prod.fst).getD s = s := by
    cases hlookup : x.messages.lookup m.id with
    | none => rfl
    | some row => exact h.owner s m hm row hlookup
  rw [upsertMessage]
  split
  · exact .inl ⟨rfl, List.mem_cons_self⟩
  · exact .inr ⟨by rw [howner], rfl⟩

theorem SavedBut.stored_upsertMessage (h : x.SavedBut pending) (hm : m ∈ x.log s)
    (hstored : (x.upsertMessage s m).stored s' m') :
    x.stored s' m' ∨ s' = s ∧ m' = m.saved := by
  rw [stored] at hstored
  rcases h.lookup_upsertMessage hm with ⟨hsame, -⟩ | ⟨hnew, -⟩
  · rw [hsame] at hstored
    exact .inl hstored
  · rw [hnew] at hstored
    rcases AList.lookup_insert_cases hstored with ⟨-, heq⟩ | ⟨-, hold⟩
    · cases heq
      exact .inr ⟨rfl, rfl⟩
    · exact .inl hold

/-- A row that is pending is written, and is pending no more. -/
theorem SavedBut.upsertMessage (h : x.SavedBut (m.id :: pending)) (hm : m ∈ x.log s)
    (hsaved : ¬Unsaved s m) : (x.upsertMessage s m).SavedBut pending := by
  have hwrites := h.lookup_upsertMessage hm
  refine ⟨?_, fun id row hlookup => ?_, fun id row hlookup => ?_, ?_, ?_,
    fun s' m' hm' row hlookup => ?_, fun id hwritten hpending s' r => ?_,
    written_upsertMessage h.written⟩
  · rw [log_upsertMessage, nextId_upsertMessage]
    exact h.log_lt
  · rw [nextId_upsertMessage]
    rcases hwrites with ⟨hsame, -⟩ | ⟨hnew, -⟩
    · exact h.row_lt id row (hsame ▸ hlookup)
    · rw [hnew] at hlookup
      rcases AList.lookup_insert_cases hlookup with ⟨rfl, -⟩ | ⟨-, hold⟩
      · exact h.log_lt s m hm
      · exact h.row_lt id row hold
  · rcases hwrites with ⟨hsame, -⟩ | ⟨hnew, -⟩
    · exact h.row_id id row (hsame ▸ hlookup)
    · rw [hnew] at hlookup
      rcases AList.lookup_insert_cases hlookup with ⟨rfl, rfl⟩ | ⟨-, hold⟩
      · exact ⟨rfl, m.saved_saved⟩
      · exact h.row_id id row hold
  · rw [log_upsertMessage]
    exact h.log_inj
  · rw [log_upsertMessage]
    exact h.nodup
  · rw [log_upsertMessage] at hm'
    rcases hwrites with ⟨hsame, -⟩ | ⟨hnew, -⟩
    · exact h.owner s' m' hm' row (hsame ▸ hlookup)
    · rw [hnew] at hlookup
      rcases AList.lookup_insert_cases hlookup with ⟨heq, rfl⟩ | ⟨-, hold⟩
      · exact (h.log_inj s' s m' m hm' hm heq).1.symm
      · exact h.owner s' m' hm' row hold
  · rw [log_upsertMessage]
    have hold : id ≠ m.id → id ∉ x.unwritten → (x.messages.lookup id = some (s', r) ↔
        ∃ m ∈ x.log s', m.id = id ∧ ¬Unsaved s' m ∧ r = m.saved) := fun hne hunwritten =>
      h.stored_iff id hunwritten (by simp [hne, hpending]) s' r
    rcases hwrites with ⟨hsame, hfailed⟩ | ⟨hnew, hunwritten⟩
    · rw [hsame]
      exact hold (fun heq => hwritten (heq ▸ hfailed)) fun hmem =>
        hwritten (unwritten_upsertMessage hmem)
    · rw [hnew]
      by_cases hid : id = m.id
      · subst hid
        rw [AList.lookup_insert, Option.some.injEq, Prod.mk.injEq]
        -- the table has the row that was written, and the log no other of this id
        constructor
        · rintro ⟨rfl, rfl⟩
          exact ⟨m, hm, rfl, hsaved, rfl⟩
        · rintro ⟨m', hm', heq, -, rfl⟩
          obtain ⟨rfl, rfl⟩ := h.log_inj s' s m' m hm' hm heq
          exact ⟨rfl, rfl⟩
      · rw [AList.lookup_insert_ne hid]
        exact hold hid (hunwritten ▸ hwritten)

/-- The rows of one conversation that are pending are written one after the other. -/
theorem SavedBut.foldl {rows : List PersistedMessage} (hsaved : ∀ m ∈ rows, ¬Unsaved s m) :
    ∀ {x : Chats}, x.SavedBut (rows.map PersistedMessage.id ++ pending) →
      (∀ m ∈ rows, m ∈ x.log s) →
      (rows.foldl (fun x m => x.upsertMessage s m) x).SavedBut pending ∧
        (rows.foldl (fun x m => x.upsertMessage s m) x).log = x.log ∧
        (rows.foldl (fun x m => x.upsertMessage s m) x).nextId = x.nextId ∧
        x.unwritten ⊆ (rows.foldl (fun x m => x.upsertMessage s m) x).unwritten ∧
        ∀ s' m', (rows.foldl (fun x m => x.upsertMessage s m) x).stored s' m' →
          x.stored s' m' ∨ s' = s ∧ ∃ m ∈ rows, m' = m.saved := by
  induction rows with
  | nil => exact fun h _ => ⟨h, rfl, rfl, List.Subset.refl _, fun _ _ hstored => .inl hstored⟩
  | cons m rows ih =>
    -- the row that is written first is pending no more; the others are those of `ih`
    intro x h hrows
    have hm := hrows m List.mem_cons_self
    obtain ⟨hrest, hlog, hnext, hsub, hstored⟩ :=
      @ih (fun m' hm' => hsaved m' (List.mem_cons_of_mem _ hm')) (x.upsertMessage s m)
        (h.upsertMessage hm (hsaved m List.mem_cons_self))
        (fun m' hm' => by
          rw [log_upsertMessage]
          exact hrows m' (List.mem_cons_of_mem _ hm'))
    refine ⟨hrest, hlog.trans log_upsertMessage, hnext.trans nextId_upsertMessage,
      List.Subset.trans unwritten_upsertMessage hsub, fun s' m' hm' => ?_⟩
    rcases hstored s' m' hm' with hone | ⟨rfl, k, hk, rfl⟩
    · rcases h.stored_upsertMessage hm hone with hold | ⟨rfl, rfl⟩
      · exact .inl hold
      · exact .inr ⟨rfl, m, List.mem_cons_self, rfl⟩
    · exact .inr ⟨rfl, k, List.mem_cons_of_mem _ hk, rfl⟩

/-! ## A row is appended -/

theorem mem_log_append : m' ∈ (x.append s m).log s' ↔
    m' ∈ x.log s' ∨ s' = s ∧ m' = { m with id := x.nextId } := by
  by_cases hs : s' = s
  · subst hs
    simp [append]
  · simp [append, hs]

theorem mem_log_add : m' ∈ (x.add s m).log s' ↔
    m' ∈ x.log s' ∨ s' = s ∧ m' = { m with id := x.nextId } := by
  rw [add, log_upsertMessage]
  exact mem_log_append

theorem unwritten_add : x.unwritten ⊆ (x.add s m).unwritten := by
  have hwrite := @unwritten_upsertMessage (x.append s m) s { m with id := x.nextId }
  exact hwrite

/-- The new row is pending. -/
theorem Saved.append (h : x.Saved) (s : Surface) (m : PersistedMessage) :
    (x.append s m).SavedBut [x.nextId] where
  log_lt s' m' hm' := by
    rcases mem_log_append.mp hm' with hm' | ⟨-, rfl⟩
    · exact Nat.lt_succ_of_lt (h.log_lt s' m' hm')
    · exact Nat.lt_succ_self _
  row_lt id row hlookup := Nat.lt_succ_of_lt (h.row_lt id row hlookup)
  row_id := h.row_id
  log_inj s₁ s₂ m₁ m₂ h₁ h₂ hid := by
    rcases mem_log_append.mp h₁ with old₁ | ⟨rfl, rfl⟩ <;>
      rcases mem_log_append.mp h₂ with old₂ | ⟨rfl, rfl⟩
    · exact h.log_inj _ _ _ _ old₁ old₂ hid
    · exact absurd hid (Nat.ne_of_lt (h.log_lt _ _ old₁))
    · exact absurd hid.symm (Nat.ne_of_lt (h.log_lt _ _ old₂))
    · exact ⟨rfl, rfl⟩
  nodup s' := by
    show ((Function.update x.log s _ s').map _).Nodup
    by_cases hs : s' = s
    · subst hs
      rw [Function.update_self, List.map_append, List.nodup_append]
      refine ⟨h.nodup s', List.nodup_singleton _, fun id hid id' hid' => ?_⟩
      obtain ⟨m', hm', rfl⟩ := List.mem_map.mp hid
      cases List.mem_singleton.mp hid'
      exact Nat.ne_of_lt (h.log_lt s' m' hm')
    · rw [Function.update_of_ne hs]
      exact h.nodup s'
  owner s' m' hm' row hlookup := by
    rcases mem_log_append.mp hm' with hm' | ⟨-, rfl⟩
    · exact h.owner s' m' hm' row hlookup
    · cases h.lookup_nextId.symm.trans hlookup
  stored_iff id hwritten hpending s' r := by
    refine (h.stored_iff id hwritten List.not_mem_nil s' r).trans (exists_congr fun m' => ?_)
    rw [mem_log_append, or_and_right]
    -- the new row has the id that is pending
    refine (or_iff_left ?_).symm
    rintro ⟨⟨-, rfl⟩, rfl, -⟩
    exact hpending List.mem_cons_self
  written := h.written

/-- A row that nobody saves. -/
theorem Saved.append_unsaved (h : x.Saved) (hunsaved : Unsaved s m) : (x.append s m).Saved := by
  refine { h.append s m with stored_iff := fun id hwritten _ s' r => ?_ }
  -- the id that was pending has no row, in the table or among those to save
  by_cases hid : id = x.nextId
  · subst hid
    refine iff_of_false (fun hlookup => ?_) ?_
    · cases h.lookup_nextId.symm.trans hlookup
    · rintro ⟨m', hm', heq, hnot, -⟩
      rcases mem_log_append.mp hm' with hold | ⟨rfl, rfl⟩
      · exact Nat.ne_of_lt (h.log_lt _ _ hold) heq
      · exact hnot hunsaved
  · exact (h.append s m).stored_iff id hwritten (by simp [hid]) s' r

theorem holds_append (hm : (x.append s m).Holds s' m') :
    x.Holds s' m' ∨ s' = s ∧ m' = { m with id := x.nextId } := by
  rcases hm with hlog | hstored
  · exact (mem_log_append.mp hlog).imp_left .inl
  · exact .inl (.inr hstored)

/-- A row that is saved at once. -/
theorem Saved.add (h : x.Saved) (hsaved : ¬Unsaved s m) : (x.add s m).Saved :=
  SavedBut.upsertMessage (h.append s m) (mem_log_append.mpr (.inr ⟨rfl, rfl⟩)) hsaved

theorem Saved.holds_add (h : x.Saved) (hm : (x.add s m).Holds s' m') :
    x.Holds s' m' ∨ s' = s ∧
      (m' = { m with id := x.nextId } ∨ m' = PersistedMessage.saved { m with id := x.nextId }) := by
  rcases hm with hlog | hstored
  · exact (mem_log_add.mp hlog).imp .inl fun hnew => ⟨hnew.1, .inl hnew.2⟩
  · rcases (h.append s m).stored_upsertMessage (mem_log_append.mpr (.inr ⟨rfl, rfl⟩)) hstored with
      hold | ⟨rfl, rfl⟩
    · exact .inl (.inr hold)
    · exact .inr ⟨rfl, .inr rfl⟩

/-! ## Rows are changed -/

section Changed

variable {touched : PersistedMessage → Bool} {f : PersistedMessage → PersistedMessage}

/-- A log with its rows changed. -/
theorem mem_log_changed {g : PersistedMessage → PersistedMessage} :
    m' ∈ Function.update x.log s ((x.log s).map g) s' ↔
      (s' ≠ s ∧ m' ∈ x.log s') ∨ s' = s ∧ ∃ m ∈ x.log s, g m = m' := by
  by_cases hs : s' = s
  · subst hs
    simp
  · simp [hs]

/-- The rows that have changed are pending. -/
theorem Saved.changed (h : x.Saved) (hid : ∀ m, (f m).id = m.id) (s : Surface) :
    SavedBut ((((x.log s).filter touched).map f).map PersistedMessage.id)
      { x with
        log := Function.update x.log s ((x.log s).map fun m => if touched m then f m else m) } := by
  have hrowid : ∀ m, (if touched m then f m else m).id = m.id := by
    intro m
    split
    · exact hid m
    · rfl
  -- a row of the log is where it was, under the id that it had
  have hback : ∀ s' m', m' ∈ Function.update x.log s
      ((x.log s).map fun m => if touched m then f m else m) s' →
      ∃ m ∈ x.log s', m'.id = m.id ∧ (s' = s → m' = if touched m then f m else m) ∧
        (s' ≠ s → m' = m) := by
    intro s' m' hm'
    rcases mem_log_changed.mp hm' with ⟨hs, hm'⟩ | ⟨rfl, m, hm, rfl⟩
    · exact ⟨m', hm', rfl, fun heq => absurd heq hs, fun _ => rfl⟩
    · exact ⟨m, hm, hrowid m, fun _ => rfl, fun hne => absurd rfl hne⟩
  refine ⟨fun s' m' hm' => ?_, h.row_lt, h.row_id, fun s₁ s₂ m₁ m₂ h₁ h₂ heq => ?_, fun s' => ?_,
    fun s' m' hm' row hlookup => ?_, fun id hwritten hpending s' r => ?_, h.written⟩
  · obtain ⟨m, hm, heq, -⟩ := hback s' m' hm'
    rw [heq]
    exact h.log_lt s' m hm
  · obtain ⟨n₁, hn₁, hid₁, hsame₁, hother₁⟩ := hback s₁ m₁ h₁
    obtain ⟨n₂, hn₂, hid₂, hsame₂, hother₂⟩ := hback s₂ m₂ h₂
    obtain ⟨rfl, rfl⟩ := h.log_inj s₁ s₂ n₁ n₂ hn₁ hn₂ (by rw [← hid₁, ← hid₂, heq])
    refine ⟨rfl, ?_⟩
    by_cases hs : s₁ = s
    · rw [hsame₁ hs, hsame₂ hs]
    · rw [hother₁ hs, hother₂ hs]
  · show ((Function.update x.log s _ s').map _).Nodup
    by_cases hs : s' = s
    · subst hs
      rw [Function.update_self, List.map_map,
        List.map_congr_left (f := PersistedMessage.id ∘ _) fun m _ => hrowid m]
      exact h.nodup s'
    · rw [Function.update_of_ne hs]
      exact h.nodup s'
  · obtain ⟨m, hm, heq, -⟩ := hback s' m' hm'
    exact h.owner s' m hm row (heq ▸ hlookup)
  · refine (h.stored_iff id hwritten List.not_mem_nil s' r).trans (exists_congr fun m' => ?_)
    rw [mem_log_changed]
    have huntouched : ∀ m ∈ x.log s, m.id = id → ¬touched m = true := fun m hm heq htouched =>
      hpending (List.mem_map.mpr ⟨f m, List.mem_map_of_mem (List.mem_filter.mpr ⟨hm, htouched⟩),
        (hid m).trans heq⟩)
    constructor
    · rintro ⟨hm', heq, hrest⟩
      refine ⟨?_, heq, hrest⟩
      by_cases hs : s' = s
      · subst hs
        exact .inr ⟨rfl, m', hm', if_neg (huntouched m' hm' heq)⟩
      · exact .inl ⟨hs, hm'⟩
    · rintro ⟨⟨-, hm'⟩ | ⟨rfl, m, hm, rfl⟩, heq, hrest⟩
      · exact ⟨hm', heq, hrest⟩
      · have hnot := huntouched m hm ((hrowid m).symm.trans heq)
        rw [if_neg hnot] at heq hrest ⊢
        exact ⟨hm, heq, hrest⟩

variable (hid : ∀ m, (f m).id = m.id) (hsaved : ∀ m, touched m = true → ¬Unsaved s (f m))
include hid hsaved

/-- Rows are changed and saved again. -/
theorem Saved.updateWhere_spec (h : x.Saved) :
    (x.updateWhere s touched f).Saved ∧
      (x.updateWhere s touched f).log =
        Function.update x.log s ((x.log s).map fun m => if touched m then f m else m) ∧
      (x.updateWhere s touched f).nextId = x.nextId ∧
      x.unwritten ⊆ (x.updateWhere s touched f).unwritten ∧
      ∀ s' m', (x.updateWhere s touched f).stored s' m' →
        x.stored s' m' ∨ s' = s ∧ ∃ m ∈ ((x.log s).filter touched).map f, m' = m.saved := by
  refine SavedBut.foldl (fun m hm => ?_) (List.append_nil _ ▸ h.changed hid s) fun m hm => ?_
  · obtain ⟨k, hk, rfl⟩ := List.mem_map.mp hm
    exact hsaved k (List.mem_filter.mp hk).2
  · obtain ⟨k, hk, rfl⟩ := List.mem_map.mp hm
    obtain ⟨hk, htouched⟩ := List.mem_filter.mp hk
    exact mem_log_changed.mpr (.inr ⟨rfl, k, hk, if_pos htouched⟩)

theorem Saved.mem_log_updateWhere (h : x.Saved) : m' ∈ (x.updateWhere s touched f).log s' ↔
    (s' ≠ s ∧ m' ∈ x.log s') ∨
      s' = s ∧ ∃ m ∈ x.log s, (if touched m then f m else m) = m' := by
  rw [(h.updateWhere_spec hid hsaved).2.1]
  exact mem_log_changed

theorem Saved.holds_updateWhere (h : x.Saved) (hm : (x.updateWhere s touched f).Holds s' m') :
    x.Holds s' m' ∨ s' = s ∧ ∃ m ∈ x.log s, touched m = true ∧ (m' = f m ∨ m' = (f m).saved) := by
  rcases hm with hlog | hstored
  · rcases (h.mem_log_updateWhere hid hsaved).mp hlog with ⟨-, hold⟩ | ⟨rfl, m, hm, rfl⟩
    · exact .inl (.inl hold)
    · by_cases htouched : touched m = true
      · exact .inr ⟨rfl, m, hm, htouched, .inl (if_pos htouched)⟩
      · rw [if_neg htouched]
        exact .inl (.inl hm)
  · rcases (h.updateWhere_spec hid hsaved).2.2.2.2 s' m' hstored with hold | ⟨rfl, m, hm, rfl⟩
    · exact .inl (.inr hold)
    · obtain ⟨k, hk, rfl⟩ := List.mem_map.mp hm
      obtain ⟨hk, htouched⟩ := List.mem_filter.mp hk
      exact .inr ⟨rfl, k, hk, htouched, .inr rfl⟩

end Changed

/-! ## A conversation is emptied, or loaded -/

theorem log_removeAll : (x.removeAll s).log = Function.update x.log s [] := by
  rw [removeAll]
  split <;> rfl

theorem mem_log_removeAll : m' ∈ (x.removeAll s).log s' ↔ s' ≠ s ∧ m' ∈ x.log s' := by
  rw [log_removeAll]
  by_cases hs : s' = s
  · subst hs
    simp
  · simp [hs]

theorem mem_rowIds {id : Nat} : id ∈ x.rowIds s ↔ ∃ r, x.messages.lookup id = some (s, r) := by
  rw [rowIds, List.mem_map]
  constructor
  · rintro ⟨⟨id', s', r⟩, hmem, rfl⟩
    obtain ⟨hentry, hs⟩ := List.mem_filter.mp hmem
    cases of_decide_eq_true hs
    exact ⟨r, AList.lookup_eq_some_iff.mpr hentry⟩
  · rintro ⟨r, hlookup⟩
    exact ⟨⟨id, s, r⟩,
      List.mem_filter.mpr ⟨AList.lookup_eq_some_iff.mp hlookup, decide_eq_true rfl⟩, rfl⟩

/-- The rows are deleted, or the deletion fails. -/
theorem removeAll_cases (x : Chats) (s : Surface) :
    (x.removeAll s).nextId = x.nextId ∧
      ((x.removeAll s).messages = x.messages ∧
          (x.removeAll s).unwritten = x.rowIds s ++ x.unwritten ∨
        (x.removeAll s).messages = x.messages.retain (fun _ row => row.1 ≠ s) ∧
          (x.removeAll s).unwritten = x.unwritten) := by
  rw [removeAll]
  split
  · exact ⟨rfl, .inl ⟨rfl, rfl⟩⟩
  · exact ⟨rfl, .inr ⟨rfl, rfl⟩⟩

theorem unwritten_removeAll : x.unwritten ⊆ (x.removeAll s).unwritten := by
  obtain ⟨-, ⟨-, hunwritten⟩ | ⟨-, hunwritten⟩⟩ := removeAll_cases x s
  · rw [hunwritten]
    exact List.subset_append_right _ _
  · rw [hunwritten]
    exact List.Subset.refl _

theorem lookup_removeAll {id : Nat} {row : Surface × PersistedMessage}
    (h : (x.removeAll s).messages.lookup id = some row) : x.messages.lookup id = some row := by
  obtain ⟨-, ⟨hsame, -⟩ | ⟨hretain, -⟩⟩ := removeAll_cases x s
  · exact hsame ▸ h
  · rw [hretain, AList.lookup_retain, Option.filter_eq_some_iff] at h
    exact h.1

theorem holds_removeAll (hm : (x.removeAll s).Holds s' m') : x.Holds s' m' :=
  hm.imp (fun hlog => (mem_log_removeAll.mp hlog).2) lookup_removeAll

theorem Saved.removeAll (h : x.Saved) (s : Surface) : (x.removeAll s).Saved where
  log_lt s' m' hm := by
    rw [(removeAll_cases x s).1]
    exact h.log_lt s' m' (mem_log_removeAll.mp hm).2
  row_lt id row hlookup := by
    rw [(removeAll_cases x s).1]
    exact h.row_lt id row (lookup_removeAll hlookup)
  row_id id row hlookup := h.row_id id row (lookup_removeAll hlookup)
  log_inj s₁ s₂ m₁ m₂ h₁ h₂ :=
    h.log_inj s₁ s₂ m₁ m₂ (mem_log_removeAll.mp h₁).2 (mem_log_removeAll.mp h₂).2
  nodup s' := by
    rw [log_removeAll]
    by_cases hs : s' = s
    · subst hs
      rw [Function.update_self]
      exact List.nodup_nil
    · rw [Function.update_of_ne hs]
      exact h.nodup s'
  owner s' m' hm row hlookup :=
    h.owner s' m' (mem_log_removeAll.mp hm).2 row (lookup_removeAll hlookup)
  stored_iff id hwritten _ s' r := by
    have hold := h.stored_iff id (fun hmem => hwritten (unwritten_removeAll hmem))
      List.not_mem_nil s' r
    simp only [mem_log_removeAll]
    -- a row of another conversation is where it was
    have hother : s' ≠ s → ((x.removeAll s).messages.lookup id = some (s', r) ↔
        x.messages.lookup id = some (s', r)) := by
      intro hs
      refine ⟨lookup_removeAll, fun hlookup => ?_⟩
      obtain ⟨-, ⟨hsame, -⟩ | ⟨hretain, -⟩⟩ := removeAll_cases x s
      · rwa [hsame]
      · rw [hretain, AList.lookup_retain, hlookup]
        simp [hs]
    by_cases hs : s' = s
    · subst hs
      refine iff_of_false (fun hlookup => ?_) fun ⟨m, hm, _⟩ => hm.1 rfl
      obtain ⟨-, ⟨-, hunwritten⟩ | ⟨hretain, -⟩⟩ := removeAll_cases x s'
      · rw [hunwritten] at hwritten
        exact hwritten (List.mem_append_left _ (mem_rowIds.mpr ⟨r, lookup_removeAll hlookup⟩))
      · rw [hretain, AList.lookup_retain, Option.filter_eq_some_iff] at hlookup
        simp at hlookup
    · rw [hother hs, hold]
      simp [hs]
  written := by
    rw [Chats.removeAll]
    split
    · next hthrows =>
      intro hnever
      cases hthrows.symm.trans (hnever x.writes)
    · exact h.written

/-- The logs of a new process are what the table holds. -/
theorem Saved.load (h : x.Saved) {loaded : Surface → List PersistedMessage}
    (hnodup : ∀ s, (loaded s).Nodup) (hloaded : ∀ s m, m ∈ loaded s ↔ x.stored s m) :
    ({ x with log := loaded } : Chats).Saved where
  log_lt s m hm := h.row_lt m.id _ ((hloaded s m).mp hm)
  row_lt := h.row_lt
  row_id := h.row_id
  log_inj s s' m m' hm hm' hid := by
    have hrow := (hloaded s m).mp hm
    have hrow' := (hloaded s' m').mp hm'
    rw [stored] at hrow hrow'
    rw [hid] at hrow
    cases hrow.symm.trans hrow'
    exact ⟨rfl, rfl⟩
  nodup s := (hnodup s).map_on fun m hm m' hm' hid => by
    have hrow := (hloaded s m).mp hm
    have hrow' := (hloaded s m').mp hm'
    rw [stored] at hrow hrow'
    rw [hid] at hrow
    cases hrow.symm.trans hrow'
    rfl
  owner s m hm row hlookup := by
    cases ((hloaded s m).mp hm).symm.trans hlookup
    rfl
  stored_iff id hwritten _ s r := by
    constructor
    · intro hlookup
      obtain ⟨rfl, hsaved⟩ := h.row_id id (s, r) hlookup
      obtain ⟨m, -, -, hnot, rfl⟩ :=
        (h.stored_iff _ hwritten List.not_mem_nil s r).mp hlookup
      exact ⟨m.saved, (hloaded s _).mpr hlookup, rfl, hnot, hsaved.symm⟩
    · rintro ⟨m, hm, rfl, -, rfl⟩
      have hrow := (hloaded s m).mp hm
      rw [(h.row_id m.id _ hrow).2]
      exact hrow
  written := h.written

end Chats

end Pizzini.Chat
