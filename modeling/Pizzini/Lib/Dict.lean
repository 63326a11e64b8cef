import Mathlib.Algebra.Ring.Nat
import Mathlib.Data.List.AList

/-!
# Dictionaries

Hash maps and Swift dictionaries are association lists with distinct keys
(`AList`). Mathlib has `lookup`, `insert` and `erase`; what is missing for
stores with expiry is `retain` (keep the entries that pass a test), the
reading of a dictionary's entries through `lookup`, and sums over the entries
(`total`), which is how a store with a ceiling measures itself.
-/

/-- A dictionary with keys `K` and values `V`. -/
abbrev Dict (K V : Type) := AList (fun _ : K => V)

namespace AList

variable {K V : Type}

/-- Keep the entries that pass `p` (`HashMap::retain`, `Dictionary.filter`). -/
def retain (p : K → V → Bool) (m : Dict K V) : Dict K V where
  entries := m.entries.filter fun e => p e.1 e.2
  nodupKeys := m.nodupKeys.sublist List.filter_sublist

/-- Change every value (`Dictionary.mapValues`). -/
def mapVals {W : Type} (f : V → W) (m : Dict K V) : Dict K W where
  entries := m.entries.map fun e => ⟨e.1, f e.2⟩
  nodupKeys := by
    show (List.map Sigma.fst (m.entries.map _)).Nodup
    rw [List.map_map]
    exact m.nodupKeys

/-- The number of entries. -/
def len (m : Dict K V) : Nat := m.entries.length

theorem len_retain_le (p : K → V → Bool) (m : Dict K V) : (m.retain p).len ≤ m.len :=
  List.length_filter_le _ _

/-- `retain` that removes nothing by number removes nothing. -/
theorem retain_eq_self {p : K → V → Bool} {m : Dict K V} (h : (m.retain p).len = m.len) :
    m.retain p = m :=
  AList.ext (List.filter_sublist.eq_of_length h)

variable [DecidableEq K]

theorem lookup_eq_some_iff {m : Dict K V} {k : K} {v : V} :
    m.lookup k = some v ↔ ⟨k, v⟩ ∈ m.entries :=
  mem_lookup_iff (s := m)

@[simp] theorem lookup_retain (p : K → V → Bool) (m : Dict K V) (k : K) :
    (m.retain p).lookup k = (m.lookup k).filter (p k) := by
  refine Option.ext fun v => ?_
  rw [lookup_eq_some_iff, Option.filter_eq_some_iff, lookup_eq_some_iff]
  simp [retain, List.mem_filter]

@[simp] theorem lookup_mapVals {W : Type} (f : V → W) (m : Dict K V) (k : K) :
    (m.mapVals f).lookup k = (m.lookup k).map f := by
  refine Option.ext fun w => ?_
  rw [lookup_eq_some_iff, Option.map_eq_some_iff]
  constructor
  · intro h
    obtain ⟨⟨k', v⟩, hmem, heq⟩ := List.mem_map.mp h
    cases heq
    exact ⟨v, lookup_eq_some_iff.mpr hmem, rfl⟩
  · rintro ⟨v, hv, rfl⟩
    exact List.mem_map.mpr ⟨⟨k, v⟩, lookup_eq_some_iff.mp hv, rfl⟩

/-- Looking up after an insertion, for either kind of key. -/
theorem lookup_insert_of_eq_or_ne (m : Dict K V) (k k' : K) (v : V) :
    (m.insert k v).lookup k' = if k' = k then some v else m.lookup k' := by
  by_cases h : k' = k
  · subst h
    rw [if_pos rfl, lookup_insert]
  · rw [if_neg h, lookup_insert_ne h]

/-- What stands in a dictionary after an insertion is the new value, or stood there before. -/
theorem lookup_insert_cases {m : Dict K V} {k k' : K} {v w : V}
    (h : (m.insert k v).lookup k' = some w) :
    (k' = k ∧ w = v) ∨ (k' ≠ k ∧ m.lookup k' = some w) := by
  rw [lookup_insert_of_eq_or_ne] at h
  split at h
  · next hk => exact .inl ⟨hk, (Option.some.inj h).symm⟩
  · next hk => exact .inr ⟨hk, h⟩

/-- Assign an optional value to a key (`dictionary[key] = value`): `none`
removes the key. -/
def put (m : Dict K V) (k : K) : Option V → Dict K V
  | some v => m.insert k v
  | none => m.erase k

theorem lookup_put (m : Dict K V) (k k' : K) (o : Option V) :
    (m.put k o).lookup k' = if k' = k then o else m.lookup k' := by
  cases o with
  | some v => exact lookup_insert_of_eq_or_ne m k k' v
  | none =>
    by_cases h : k' = k
    · subst h
      rw [if_pos rfl, put, lookup_erase]
    · rw [if_neg h, put, lookup_erase_ne h]

@[simp] theorem lookup_put_self (m : Dict K V) (k : K) (o : Option V) :
    (m.put k o).lookup k = o := by
  rw [lookup_put, if_pos rfl]

theorem lookup_put_ne (m : Dict K V) {k k' : K} (h : k' ≠ k) (o : Option V) :
    (m.put k o).lookup k' = m.lookup k' := by
  rw [lookup_put, if_neg h]

/-- All keys meet `P`. -/
def AllKeys (P : K → Prop) (m : Dict K V) : Prop := ∀ k v, m.lookup k = some v → P k

namespace AllKeys

variable {P : K → Prop} {m : Dict K V}

theorem empty : AllKeys P (∅ : Dict K V) := nofun

theorem insert (h : AllKeys P m) {k : K} (hk : P k) (v : V) : AllKeys P (m.insert k v) := by
  intro k' v' hv'
  rw [lookup_insert_of_eq_or_ne] at hv'
  split at hv'
  next heq => exact heq ▸ hk
  next => exact h k' v' hv'

theorem erase (h : AllKeys P m) (k : K) : AllKeys P (m.erase k) := by
  intro k' v' hv'
  by_cases heq : k' = k
  · rw [heq, lookup_erase] at hv'
    cases hv'
  · rw [lookup_erase_ne heq] at hv'
    exact h k' v' hv'

theorem retain (h : AllKeys P m) (p : K → V → Bool) : AllKeys P (m.retain p) := by
  intro k v hv
  rw [lookup_retain, Option.filter_eq_some_iff] at hv
  exact h k v hv.1

theorem mapVals {W : Type} (h : AllKeys P m) (f : V → W) : AllKeys P (m.mapVals f) := by
  intro k w hw
  rw [lookup_mapVals, Option.map_eq_some_iff] at hw
  obtain ⟨v, hv, _⟩ := hw
  exact h k v hv

end AllKeys

/-- Dictionaries that look up alike have the same entries, in some order. -/
theorem entries_perm {m n : Dict K V} (h : ∀ k, m.lookup k = n.lookup k) :
    m.entries.Perm n.entries := by
  refine List.lookup_ext m.nodupKeys n.nodupKeys fun k v => ?_
  show v ∈ m.lookup k ↔ v ∈ n.lookup k
  rw [h]

/-- Building a dictionary from a list of entries that agree on every key. -/
theorem lookup_foldl_insert {L : List (K × V)}
    (hL : ∀ {k v v'}, (k, v) ∈ L → (k, v') ∈ L → v = v') :
    ∀ (m : Dict K V) (k : K) (v : V),
      (L.foldl (fun out e => out.insert e.1 e.2) m).lookup k = some v ↔
        (k, v) ∈ L ∨ (∀ w, (k, w) ∉ L) ∧ m.lookup k = some v := by
  induction L with
  | nil => simp
  | cons e L ih =>
    intro m k v
    rw [List.foldl_cons, ih fun h h' => hL (List.mem_cons_of_mem _ h) (List.mem_cons_of_mem _ h'),
      lookup_insert_of_eq_or_ne]
    constructor
    · rintro (hin | ⟨hout, hlook⟩)
      · exact .inl (List.mem_cons_of_mem _ hin)
      · by_cases hk : k = e.1
        · rw [if_pos hk] at hlook
          cases Option.some.inj hlook
          subst hk
          exact .inl List.mem_cons_self
        · rw [if_neg hk] at hlook
          refine .inr ⟨fun w hw => ?_, hlook⟩
          obtain heq | hin := List.mem_cons.mp hw
          · exact hk (congrArg Prod.fst heq)
          · exact hout w hin
    · rintro (hin | ⟨hout, hlook⟩)
      · by_cases hrest : ∃ w, (k, w) ∈ L
        · obtain ⟨w, hw⟩ := hrest
          rw [hL hin (List.mem_cons_of_mem _ hw)]
          exact .inl hw
        · obtain heq | hin := List.mem_cons.mp hin
          · rw [← heq, if_pos rfl]
            exact .inr ⟨fun w hw => hrest ⟨w, hw⟩, rfl⟩
          · exact .inl hin
      · have hk : k ≠ e.1 := fun h => hout e.2 (by rw [h]; exact List.mem_cons_self)
        rw [if_neg hk]
        exact .inr ⟨fun w hw => hout w (List.mem_cons_of_mem _ hw), hlook⟩

/-! ## Sums over the entries -/

/-- The sum of a weight over all entries (`values().map(..).sum()`). -/
def total (weight : K → V → Nat) (m : Dict K V) : Nat :=
  (m.entries.map fun e => weight e.1 e.2).sum

omit [DecidableEq K] in
theorem len_eq_total (m : Dict K V) : m.len = m.total fun _ _ => 1 := by
  show m.entries.length = (m.entries.map fun _ => 1).sum
  simp

/-- A key's weight and the weight of the other entries. -/
theorem total_erase (weight : K → V → Nat) (m : Dict K V) (k : K) :
    (m.erase k).total weight + ((m.lookup k).map (weight k)).getD 0 = m.total weight := by
  obtain ⟨entries, hnodup⟩ := m
  show ((entries.kerase k).map _).sum + ((entries.dlookup k).map (weight k)).getD 0 =
    (entries.map _).sum
  clear hnodup
  induction entries with
  | nil => rfl
  | cons e entries ih =>
    obtain ⟨k', v⟩ := e
    by_cases hk : k = k'
    · subst hk
      have hkerase : List.kerase k (⟨k, v⟩ :: entries) = entries := List.kerase_cons_eq rfl
      rw [hkerase, List.dlookup_cons_eq, List.map_cons, List.sum_cons]
      exact Nat.add_comm _ _
    · have hkerase : List.kerase k (⟨k', v⟩ :: entries) = ⟨k', v⟩ :: entries.kerase k :=
        List.kerase_cons_ne hk
      have hlook : List.dlookup k (⟨k', v⟩ :: entries) = entries.dlookup k :=
        List.dlookup_cons_ne _ (⟨k', v⟩ : Sigma fun _ : K => V) hk
      rw [hkerase, hlook, List.map_cons, List.map_cons, List.sum_cons, List.sum_cons,
        Nat.add_assoc, ih]

/-- An insertion trades the key's old weight for the new one. -/
theorem total_insert (weight : K → V → Nat) (m : Dict K V) (k : K) (v : V) :
    (m.insert k v).total weight + ((m.lookup k).map (weight k)).getD 0 =
      m.total weight + weight k v := by
  have hinsert : (m.insert k v).total weight = weight k v + (m.erase k).total weight := rfl
  have herase := total_erase weight m k
  omega

/-- A new key adds an entry, a known one does not. -/
theorem len_insert_le {m : Dict K V} {k : K} {cap : Nat} (hlen : m.len ≤ cap)
    (hroom : m.lookup k = none → m.len < cap) (v : V) : (m.insert k v).len ≤ cap := by
  have hinsert := total_insert (fun _ _ => 1) m k v
  rw [← len_eq_total, ← len_eq_total] at hinsert
  cases hlook : m.lookup k with
  | none =>
    have := hroom hlook
    rw [hlook, Option.map_none, Option.getD_none] at hinsert
    omega
  | some w =>
    rw [hlook, Option.map_some, Option.getD_some] at hinsert
    omega

/-- A dictionary whose entries weigh no more than another's, key by key,
weighs no more in total. -/
theorem total_le {weight : K → V → Nat} {m n : Dict K V}
    (h : ∀ k v, m.lookup k = some v → ∃ w, n.lookup k = some w ∧ weight k v ≤ weight k w) :
    m.total weight ≤ n.total weight := by
  obtain ⟨entries, hnodup⟩ := m
  induction entries generalizing n with
  | nil => exact Nat.zero_le _
  | cons e entries ih =>
    obtain ⟨k, v⟩ := e
    obtain ⟨hk, hnodup'⟩ := List.nodupKeys_cons.mp hnodup
    obtain ⟨w, hw, hle⟩ := h k v (List.dlookup_cons_eq entries k v)
    -- the rest of `m` is measured against `n` without `k`
    have hrest : total weight ⟨entries, hnodup'⟩ ≤ (n.erase k).total weight := by
      refine ih hnodup' fun k' v' hlook => ?_
      have hne : k' ≠ k := by
        rintro rfl
        have hmem : (⟨k', v'⟩ : Sigma fun _ : K => V) ∈ entries := lookup_eq_some_iff.mp hlook
        exact hk (List.mem_keys.mpr ⟨v', hmem⟩)
      obtain ⟨w', hw', hle'⟩ := h k' v'
        ((List.dlookup_cons_ne entries (⟨k, v⟩ : Sigma fun _ : K => V) hne).trans hlook)
      exact ⟨w', by rw [lookup_erase_ne hne]; exact hw', hle'⟩
    have herase := total_erase weight n k
    rw [hw, Option.map_some, Option.getD_some] at herase
    have hcons : total weight ⟨⟨k, v⟩ :: entries, hnodup⟩ =
        weight k v + total weight ⟨entries, hnodup'⟩ := rfl
    omega

end AList
