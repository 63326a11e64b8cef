import Pizzini.Lib.Dict

/-!
# Dictionaries as documents

A store keeps a dictionary and writes it as a document: another dictionary,
with a text for each key and a record for each value (`rows`). Reading it back
goes through the document row by row, skips rows, and changes values
(`unrows`), as a store does that drops what has expired. If a reader knows a
writer's rows, what it reads is known for every key (`lookup_unrows`).
-/

namespace AList

variable {K V K' W : Type} [DecidableEq K] [DecidableEq K']

/-- The document of a dictionary. -/
def rows (key : K → K') (record : K → V → W) (m : Dict K V) : Dict K' W :=
  m.entries.foldl (fun doc e => doc.insert (key e.1) (record e.1 e.2)) ∅

/-- What a reader makes of a document: it skips a row or inserts what it says. -/
def unrows (row : K' → W → Option (K × V)) (doc : Dict K' W) : Dict K V :=
  doc.entries.foldl
    (fun m e =>
      match row e.1 e.2 with
      | none => m
      | some (k, v) => m.insert k v) ∅

omit [DecidableEq K] in
/-- The rows of a document. -/
theorem mem_rows {key : K → K'} (hkey : Function.Injective key) {record : K → V → W}
    {m : Dict K V} {k' : K'} {w : W} :
    ⟨k', w⟩ ∈ (rows key record m).entries ↔ ∃ e ∈ m.entries, k' = key e.1 ∧ w = record e.1 e.2 := by
  have hfold : rows key record m =
      (m.entries.map fun e => (key e.1, record e.1 e.2)).foldl
        (fun out e => out.insert e.1 e.2) (∅ : Dict K' W) := by
    rw [List.foldl_map]
    rfl
  have hmem : ∀ {k' w}, (k', w) ∈ (m.entries.map fun e => (key e.1, record e.1 e.2)) ↔
      ∃ e ∈ m.entries, k' = key e.1 ∧ w = record e.1 e.2 := by
    intro k' w
    rw [List.mem_map]
    constructor
    · rintro ⟨e, he, heq⟩
      cases heq
      exact ⟨e, he, rfl, rfl⟩
    · rintro ⟨e, he, rfl, rfl⟩
      exact ⟨e, he, rfl⟩
  rw [← lookup_eq_some_iff, hfold, lookup_foldl_insert, hmem]
  · simp
  · intro k v v' hv hv'
    obtain ⟨e, he, hk, rfl⟩ := hmem.mp hv
    obtain ⟨e', he', hk', rfl⟩ := hmem.mp hv'
    have hsame : e.1 = e'.1 := hkey (hk.symm.trans hk')
    rw [m.nodupKeys.eq_of_fst_eq he he' hsame]

/-- A reader that turns the row of `k` and `v` into `read k v` reads `read k v`
for each key `k` with value `v`, whatever the order of the rows. -/
theorem lookup_unrows {key : K → K'} (hkey : Function.Injective key) {record : K → V → W}
    {m : Dict K V} {doc : Dict K' W} (hdoc : doc.entries.Perm (rows key record m).entries)
    {row : K' → W → Option (K × V)} (read : K → V → Option V)
    (hrow : ∀ k v, row (key k) (record k v) = (read k v).map fun v' => (k, v')) (k : K) :
    (unrows row doc).lookup k = (m.lookup k).bind (read k) := by
  have hfold : unrows row doc = (doc.entries.filterMap fun e => row e.1 e.2).foldl
      (fun out e => out.insert e.1 e.2) (∅ : Dict K V) := by
    rw [List.foldl_filterMap]
    unfold unrows
    congr 1
    funext out e
    cases row e.1 e.2 with
    | none => rfl
    | some r => rfl
  have hmem : ∀ {k v}, (k, v) ∈ (doc.entries.filterMap fun e => row e.1 e.2) ↔
      (m.lookup k).bind (read k) = some v := by
    intro k v
    rw [List.mem_filterMap, Option.bind_eq_some_iff]
    constructor
    · rintro ⟨⟨k', w⟩, hin, heq⟩
      obtain ⟨e, he, rfl, rfl⟩ := (mem_rows hkey).mp (hdoc.mem_iff.mp hin)
      rw [hrow, Option.map_eq_some_iff] at heq
      obtain ⟨v', hread, heq⟩ := heq
      cases heq
      exact ⟨e.2, lookup_eq_some_iff.mpr he, hread⟩
    · rintro ⟨v₀, hlook, hread⟩
      refine ⟨⟨key k, record k v₀⟩, hdoc.mem_iff.mpr ?_, ?_⟩
      · exact (mem_rows hkey).mpr ⟨⟨k, v₀⟩, lookup_eq_some_iff.mp hlook, rfl, rfl⟩
      · rw [hrow, hread]
        rfl
  refine Option.ext fun v => ?_
  rw [hfold, lookup_foldl_insert, hmem]
  · simp
  · intro k v v' hv hv'
    have h := hmem.mp hv
    rw [hmem.mp hv'] at h
    exact (Option.some.inj h).symm

end AList
