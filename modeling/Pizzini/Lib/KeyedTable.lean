import Mathlib.Data.List.Sort
import Pizzini.Lib.Dict

/-!
# Tables with a primary key

A table is a dictionary of rows, `upsert` is `INSERT … ON CONFLICT(key) DO UPDATE`, and
`select` is `SELECT … WHERE … ORDER BY`. A loop over the rows that were selected collects a
value from each (`collect`): a row may be skipped, and a row that cannot be read ends the loop.

`collect_insert`: where the loop went through before, it does so with one row changed, if that
row can be read; and it collects what the row reads as, once.
-/

namespace KeyedTable

variable {K R A : Type} [DecidableEq K]

/-- `INSERT … ON CONFLICT(key) DO UPDATE`; `update` is the row that is there after a conflict. -/
def upsert (update : (old excluded : R) → R) (k : K) (row : R) (t : Dict K R) : Dict K R :=
  t.insert k
    (match t.lookup k with
    | none => row
    | some old => update old row)

/-- The row that is inserted, without a conflict or after one. -/
theorem upsert_cases (update : (old excluded : R) → R) (k : K) (row : R) (t : Dict K R) :
    ∃ row', upsert update k row t = t.insert k row' ∧
      (t.lookup k = none ∧ row' = row ∨ ∃ old, t.lookup k = some old ∧ row' = update old row) := by
  rw [upsert]
  cases t.lookup k with
  | none => exact ⟨_, rfl, .inl ⟨rfl, rfl⟩⟩
  | some old => exact ⟨_, rfl, .inr ⟨old, rfl, rfl⟩⟩

/-- `SELECT … WHERE … ORDER BY`. -/
def select (P : R → Bool) (le : (Σ _ : K, R) → (Σ _ : K, R) → Prop) [DecidableRel le]
    (t : Dict K R) : List (Σ _ : K, R) :=
  (t.entries.filter fun e => P e.2).insertionSort le

/-- What a loop over rows collects; `read` is none where it fails, and some none where it skips
the row. -/
def collect (read : K → R → Option (Option A)) : List (Σ _ : K, R) → Option (List A)
  | [] => some []
  | e :: es =>
    match read e.1 e.2, collect read es with
    | some (some a), some as => some (a :: as)
    | some none, some as => some as
    | _, _ => none

variable {read : K → R → Option (Option A)}

omit [DecidableEq K] in
/-- The loop goes through where every row can be read. -/
theorem collect_eq_some_iff {es : List (Σ _ : K, R)} {as : List A} :
    collect read es = some as ↔
      (∀ e ∈ es, (read e.1 e.2).isSome) ∧ as = es.filterMap fun e => (read e.1 e.2).join := by
  induction es generalizing as with
  | nil => exact ⟨fun h => ⟨nofun, (Option.some.inj h).symm⟩, fun h => congrArg some h.2.symm⟩
  | cons e es ih =>
    rw [List.forall_mem_cons, List.filterMap_cons, collect]
    cases hread : read e.1 e.2 with
    | none => exact ⟨nofun, fun h => nomatch h.1.1⟩
    | some a =>
      cases hrest : collect read es with
      | none =>
        refine ⟨fun h => ?_, fun h => ?_⟩
        · cases a <;> cases h
        · cases hrest.symm.trans (ih.mpr ⟨h.1.2, rfl⟩)
      | some rest =>
        obtain ⟨hall, rfl⟩ := ih.mp hrest
        cases a with
        | none => exact ⟨fun h => ⟨⟨rfl, hall⟩, (Option.some.inj h).symm⟩, fun h => congrArg some h.2.symm⟩
        | some a => exact ⟨fun h => ⟨⟨rfl, hall⟩, (Option.some.inj h).symm⟩, fun h => congrArg some h.2.symm⟩

section Insert

variable {P : R → Bool} {le : (Σ _ : K, R) → (Σ _ : K, R) → Prop} [DecidableRel le]
  {t : Dict K R} {k : K} {row : R}

omit [DecidableEq K] in
theorem mem_select {e : Σ _ : K, R} : e ∈ select P le t ↔ e ∈ t.entries ∧ P e.2 = true := by
  rw [select, List.mem_insertionSort, List.mem_filter]

/-- One row is changed. -/
theorem collect_insert {as : List A} (hcollect : collect read (select P le t) = some as)
    (hselected : P row = true) {a : A} (hread : read k row = some (some a)) {key : A → K}
    (hkey : ∀ {k row a}, read k row = some (some a) → key a = k) :
    ∃ as', collect read (select P le (t.insert k row)) = some as' ∧
      as'.filter (fun a => key a = k) = [a] := by
  obtain ⟨hall, -⟩ := collect_eq_some_iff.mp hcollect
  refine ⟨_, collect_eq_some_iff.mpr ⟨?_, rfl⟩, ?_⟩
  · intro e he
    obtain ⟨hmem, hP⟩ := mem_select.mp he
    rw [AList.entries_insert, List.mem_cons] at hmem
    rcases hmem with rfl | hmem
    · rw [hread]
      rfl
    · exact hall e (mem_select.mpr ⟨(List.kerase_sublist k t.entries).subset hmem, hP⟩)
  · -- the other rows are of other keys, in whatever order the rows come
    have hperm : (select P le (t.insert k row)).Perm
        (⟨k, row⟩ :: (t.entries.kerase k).filter fun e => P e.2) := by
      refine (List.perm_insertionSort _ _).trans ?_
      rw [AList.entries_insert]
      refine List.Perm.of_eq (List.filter_cons_of_pos ?_)
      exact hselected
    have hothers : ∀ e ∈ (t.entries.kerase k).filter fun e => P e.2, e.1 ≠ k := by
      rintro e he rfl
      exact List.notMem_keys_kerase _ t.nodupKeys (List.mem_keys_of_mem (List.mem_of_mem_filter he))
    refine List.perm_singleton.mp (((hperm.filterMap _).filter _).trans (List.Perm.of_eq ?_))
    rw [List.filterMap_cons_some (b := a) (by rw [hread]; rfl),
      List.filter_cons_of_pos (by simpa using hkey hread)]
    refine congrArg _ (List.filter_eq_nil_iff.mpr fun b hb => ?_)
    obtain ⟨e, he, hreads⟩ := List.mem_filterMap.mp hb
    have hreads' : read e.1 e.2 = some (some b) := Option.join_eq_some_iff.mp hreads
    rw [hkey hreads']
    simpa using hothers e he

end Insert

/-- The last of the values that are collected for a key. -/
theorem lookup_foldl_insert_key {key : A → K} (k : K) :
    ∀ (as : List A) (m : Dict K A), (as.foldl (fun m a => m.insert (key a) a) m).lookup k =
      ((as.filter fun a => key a = k).getLast?).or (m.lookup k)
  | [], _ => rfl
  | a :: as, m => by
    rw [List.foldl_cons, lookup_foldl_insert_key k as]
    by_cases hkey : key a = k
    · subst hkey
      rw [List.filter_cons_of_pos (by simp), List.getLast?_cons, AList.lookup_insert]
      cases (as.filter fun b => key b = key a).getLast? <;> rfl
    · rw [List.filter_cons_of_neg (by simpa using hkey), AList.lookup_insert_ne (Ne.symm hkey)]

end KeyedTable
