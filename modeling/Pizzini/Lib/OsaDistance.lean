import Mathlib.Algebra.Ring.Nat
import Mathlib.Data.List.Range

/-!
# Optimal String Alignment distance

The number of insertions, deletions, substitutions and adjacent transpositions that turn one
list into another, where no part is edited twice. Two nested loops fill a table, cell after
cell; a cell is computed from cells above it and to its left.

`Filled` is the loops' invariant: what is filled in so far satisfies the recurrence. From it
come the facts about the distance: common beginnings and ends cost nothing (`filled_skip`), so
one slip of the hand is at distance at most 1 (`osa_le_one`).
-/

namespace OptimalStringAlignment

variable {α : Type} [DecidableEq α]

/-- The cells `d[i][j]`. -/
abbrev Table := Nat → Nat → Nat

/-- The table with one cell written. -/
def Table.set (d : Table) (i j v : Nat) : Table :=
  fun i' j' => if i' = i ∧ j' = j then v else d i' j'

variable (s t : List α)

/-- The value of the cell `(i, j)`, with `1 ≤ i` and `1 ≤ j`, from the cells before it. -/
def cell (d : Table) (i j : Nat) : Nat :=
  let cost := if s[i - 1]? = t[j - 1]? then 0 else 1
  -- deletion, insertion, substitution
  let best := min (min (d (i - 1) j + 1) (d i (j - 1) + 1)) (d (i - 1) (j - 1) + cost)
  if 1 < i ∧ 1 < j ∧ s[i - 1]? = t[j - 2]? ∧ s[i - 2]? = t[j - 1]? then
    -- adjacent transposition
    min best (d (i - 2) (j - 2) + 1)
  else best

/-- The border: what it takes to delete or to insert everything. -/
def border : Table := fun i j => if j = 0 then i else if i = 0 then j else 0

/-- The inner loop. -/
def fillRow (d : Table) (i : Nat) : Table :=
  (List.range' 1 t.length).foldl (fun d j => d.set i j (cell s t d i j)) d

/-- The outer loop. -/
def fill : Table := (List.range' 1 s.length).foldl (fillRow s t) border

/-- The distance. -/
def osa : Nat :=
  if s.length = 0 then t.length
  else if t.length = 0 then s.length
  else fill s t s.length t.length

/-! ## The loops fill the table with the recurrence -/

variable {s t}

/-- The cells before `(i, j)`, row after row, satisfy the recurrence. -/
structure Filled (s t : List α) (d : Table) (i j : Nat) : Prop where
  top : ∀ j', d 0 j' = j'
  left : ∀ i', d i' 0 = i'
  done : ∀ {i' j'}, 1 ≤ i' → 1 ≤ j' → j' ≤ t.length → (i' < i ∨ i' = i ∧ j' < j) →
    d i' j' = cell s t d i' j'

theorem Table.set_self (d : Table) (i j v : Nat) : d.set i j v i j = v := if_pos ⟨rfl, rfl⟩

theorem Table.set_of_ne (d : Table) {i j i' j' : Nat} (h : i' ≠ i ∨ j' ≠ j) (v : Nat) :
    d.set i j v i' j' = d i' j' := by
  refine if_neg ?_
  rintro ⟨hi, hj⟩
  exact h.elim (absurd hi) (absurd hj)

/-- A cell does not depend on the cells from it on. -/
theorem cell_set {d : Table} {i j i' j' v : Nat} (hi' : 1 ≤ i') (hj' : 1 ≤ j')
    (hbefore : i' < i ∨ i' = i ∧ j' ≤ j) :
    cell s t (d.set i j v) i' j' = cell s t d i' j' := by
  have hup : d.set i j v (i' - 1) j' = d (i' - 1) j' := Table.set_of_ne d (by omega) v
  have hleft : d.set i j v i' (j' - 1) = d i' (j' - 1) := Table.set_of_ne d (by omega) v
  have hdiag : d.set i j v (i' - 1) (j' - 1) = d (i' - 1) (j' - 1) :=
    Table.set_of_ne d (by omega) v
  have hswap : d.set i j v (i' - 2) (j' - 2) = d (i' - 2) (j' - 2) :=
    Table.set_of_ne d (by omega) v
  simp only [cell, hup, hleft, hdiag, hswap]

theorem Filled.step {d : Table} {i j : Nat} (h : Filled s t d i j) (hi : 1 ≤ i) (hj : 1 ≤ j) :
    Filled s t (d.set i j (cell s t d i j)) i (j + 1) where
  top := fun j' => (Table.set_of_ne d (.inl (by omega)) _).trans (h.top j')
  left := fun i' => (Table.set_of_ne d (.inr (by omega)) _).trans (h.left i')
  done := by
    intro i' j' hi' hj' hlen hbefore
    rw [cell_set hi' hj' (by omega)]
    by_cases hsame : i' = i ∧ j' = j
    · obtain ⟨rfl, rfl⟩ := hsame
      exact Table.set_self d i' j' _
    · rw [Table.set_of_ne d (by omega)]
      exact h.done hi' hj' hlen (by omega)

theorem Filled.row {i : Nat} (hi : 1 ≤ i) :
    ∀ {len j : Nat} {d : Table}, 1 ≤ j → Filled s t d i j →
      Filled s t ((List.range' j len).foldl (fun d j => d.set i j (cell s t d i j)) d) i
        (j + len) := by
  intro len
  induction len with
  | zero => exact fun _ h => h
  | succ len ih =>
    intro j d hj h
    rw [List.range'_succ, List.foldl_cons, Nat.add_comm len, ← Nat.add_assoc]
    exact ih (Nat.le_add_left 1 j) (h.step hi hj)

/-- A filled row is behind the next one. -/
theorem Filled.nextRow {d : Table} {i : Nat} (h : Filled s t d i (t.length + 1)) :
    Filled s t d (i + 1) 1 :=
  ⟨h.top, h.left, fun hi' hj' hlen hbefore => h.done hi' hj' hlen (by omega)⟩

theorem Filled.rows :
    ∀ {len i : Nat} {d : Table}, 1 ≤ i → Filled s t d i 1 →
      Filled s t ((List.range' i len).foldl (fillRow s t) d) (i + len) 1 := by
  intro len
  induction len with
  | zero => exact fun _ h => h
  | succ len ih =>
    intro i d hi h
    rw [List.range'_succ, List.foldl_cons, Nat.add_comm len, ← Nat.add_assoc]
    have hrow : Filled s t (fillRow s t d i) i (1 + t.length) :=
      Filled.row hi (Nat.le_refl 1) h
    rw [Nat.add_comm 1] at hrow
    exact ih (Nat.le_add_left 1 i) hrow.nextRow

theorem filled_fill : Filled s t (fill s t) (s.length + 1) 1 := by
  have hborder : Filled s t border 1 1 := by
    refine ⟨fun j => ?_, fun i => if_pos rfl, fun hi' _ _ hbefore => by omega⟩
    rw [border]
    split
    · next hj => exact hj.symm
    · exact if_pos rfl
  rw [Nat.add_comm]
  exact Filled.rows (Nat.le_refl 1) hborder

/-- The distance is the last cell of the table. -/
theorem osa_eq : osa s t = fill s t s.length t.length := by
  rw [osa]
  split
  · next hs => rw [hs, filled_fill.top]
  · split
    · next ht => rw [ht, filled_fill.left]
    · rfl

/-! ## Slips of the hand -/

theorem fill_cell {i j : Nat} (hi : i < s.length) (hj : j < t.length) :
    fill s t (i + 1) (j + 1) = cell s t (fill s t) (i + 1) (j + 1) :=
  filled_fill.done (Nat.le_add_left 1 i) (Nat.le_add_left 1 j) hj (by omega)

/-- Equal elements cost nothing. -/
theorem fill_match {i j : Nat} (hi : i < s.length) (hj : j < t.length) (heq : s[i]? = t[j]?) :
    fill s t (i + 1) (j + 1) ≤ fill s t i j := by
  rw [fill_cell hi hj, cell]
  simp only [Nat.add_sub_cancel, heq, if_true, Nat.add_zero]
  split <;> omega

theorem fill_substitute {i j : Nat} (hi : i < s.length) (hj : j < t.length) :
    fill s t (i + 1) (j + 1) ≤ fill s t i j + 1 := by
  rw [fill_cell hi hj, cell]
  simp only [Nat.add_sub_cancel]
  split <;> split <;> omega

theorem fill_delete {i j : Nat} (hi : i < s.length) (hj : j ≤ t.length) :
    fill s t (i + 1) j ≤ fill s t i j + 1 := by
  cases j with
  | zero => rw [filled_fill.left, filled_fill.left]
  | succ j =>
    rw [fill_cell hi hj, cell]
    simp only [Nat.add_sub_cancel]
    split <;> split <;> omega

theorem fill_insert {i j : Nat} (hi : i ≤ s.length) (hj : j < t.length) :
    fill s t i (j + 1) ≤ fill s t i j + 1 := by
  cases i with
  | zero => rw [filled_fill.top, filled_fill.top]
  | succ i =>
    rw [fill_cell hi hj, cell]
    simp only [Nat.add_sub_cancel]
    split <;> split <;> omega

theorem fill_swap {i j : Nat} (hi : i + 1 < s.length) (hj : j + 1 < t.length)
    (hcross : s[i + 1]? = t[j]?) (hcross' : s[i]? = t[j + 1]?) :
    fill s t (i + 2) (j + 2) ≤ fill s t i j + 1 := by
  have hswap : 1 < i + 2 ∧ 1 < j + 2 ∧ s[i + 2 - 1]? = t[j + 2 - 2]? ∧
      s[i + 2 - 2]? = t[j + 2 - 1]? :=
    ⟨by omega, by omega, hcross, hcross'⟩
  rw [fill_cell hi hj, cell, if_pos hswap]
  exact Nat.min_le_right ..

/-- A common stretch costs nothing. -/
theorem fill_skip {i j : Nat} : ∀ {k : Nat}, i + k ≤ s.length → j + k ≤ t.length →
    (∀ l < k, s[i + l]? = t[j + l]?) → fill s t (i + k) (j + k) ≤ fill s t i j := by
  intro k
  induction k with
  | zero => exact fun _ _ _ => Nat.le_refl _
  | succ k ih =>
    intro hi hj heq
    have hlast : fill s t (i + k + 1) (j + k + 1) ≤ fill s t (i + k) (j + k) :=
      fill_match (by omega) (by omega) (heq k (Nat.lt_succ_self k))
    have hrest := ih (by omega) (by omega) fun l hl => heq l (Nat.lt_succ_of_lt hl)
    exact Nat.le_trans hlast hrest

/-- The distance of two lists with a common beginning and a common end. -/
theorem osa_le_middle (p x y q : List α) :
    osa (p ++ x ++ q) (p ++ y ++ q) ≤
      fill (p ++ x ++ q) (p ++ y ++ q) (p.length + x.length) (p.length + y.length) := by
  have hend : fill (p ++ x ++ q) (p ++ y ++ q) (p.length + x.length + q.length)
      (p.length + y.length + q.length) ≤
        fill (p ++ x ++ q) (p ++ y ++ q) (p.length + x.length) (p.length + y.length) := by
    refine fill_skip (by simp [Nat.add_assoc]) (by simp [Nat.add_assoc]) fun l hl => ?_
    rw [List.getElem?_append_right (by simp), List.getElem?_append_right (by simp)]
    simp only [List.length_append, Nat.add_sub_cancel_left]
  rw [osa_eq]
  simpa only [List.length_append] using hend

theorem fill_common (p s t : List α) : fill (p ++ s) (p ++ t) p.length p.length = 0 := by
  have hle : fill (p ++ s) (p ++ t) (0 + p.length) (0 + p.length) ≤
      fill (p ++ s) (p ++ t) 0 0 := by
    refine fill_skip (by simp) (by simp) fun l hl => ?_
    rw [Nat.zero_add, List.getElem?_append_left hl, List.getElem?_append_left hl]
  rw [filled_fill.left, Nat.zero_add] at hle
  omega

@[simp] theorem osa_self (s : List α) : osa s s = 0 := by
  have hzero := fill_common s [] []
  rwa [List.append_nil, ← osa_eq] at hzero

/-- One slip of the hand: a wrong, an extra or a missing element, or two neighbours swapped. -/
inductive Slip : List α → List α → Prop
  | substitute (p q : List α) (a b : α) : Slip (p ++ [a] ++ q) (p ++ [b] ++ q)
  | insert (p q : List α) (b : α) : Slip (p ++ [] ++ q) (p ++ [b] ++ q)
  | delete (p q : List α) (a : α) : Slip (p ++ [a] ++ q) (p ++ [] ++ q)
  | swap (p q : List α) (a b : α) : Slip (p ++ [a, b] ++ q) (p ++ [b, a] ++ q)

/-- A slip is at distance at most 1. -/
theorem osa_le_one (h : Slip s t) : osa s t ≤ 1 := by
  have hstart : ∀ p x y q : List α,
      fill (p ++ x ++ q) (p ++ y ++ q) p.length p.length = 0 := by
    intro p x y q
    rw [List.append_assoc, List.append_assoc]
    exact fill_common p (x ++ q) (y ++ q)
  cases h with
  | substitute p q a b =>
    have hcost := fill_substitute (s := p ++ [a] ++ q) (t := p ++ [b] ++ q) (i := p.length)
      (j := p.length) (by simp) (by simp)
    rw [hstart] at hcost
    exact Nat.le_trans (osa_le_middle p [a] [b] q) hcost
  | insert p q b =>
    have hcost := fill_insert (s := p ++ [] ++ q) (t := p ++ [b] ++ q) (i := p.length)
      (j := p.length) (by simp) (by simp)
    rw [hstart] at hcost
    exact Nat.le_trans (osa_le_middle p [] [b] q) hcost
  | delete p q a =>
    have hcost := fill_delete (s := p ++ [a] ++ q) (t := p ++ [] ++ q) (i := p.length)
      (j := p.length) (by simp) (by simp)
    rw [hstart] at hcost
    exact Nat.le_trans (osa_le_middle p [a] [] q) hcost
  | swap p q a b =>
    have hcost := fill_swap (s := p ++ [a, b] ++ q) (t := p ++ [b, a] ++ q) (i := p.length)
      (j := p.length) (by simp) (by simp) (by simp) (by simp)
    rw [hstart] at hcost
    exact Nat.le_trans (osa_le_middle p [a, b] [b, a] q) hcost

end OptimalStringAlignment
