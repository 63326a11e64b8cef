import Pizzini.Lib.OsaDistance
import Mathlib.Order.Bounds.Basic

/-!
# The Optimal String Alignment distance is the cost of a cheapest edit script

An edit script cuts two lists into corresponding pieces. A piece is kept or edited once,
so no part of a list is edited twice. The table of `OptimalStringAlignment` computes the
cost of a cheapest script (`osa_isLeast`):

- no script is cheaper (`fill_le_cost`), by induction on the script: each piece leads from
  one cell to a later one that is at most its cost away;
- the value of a cell is the cost of some script (`exists_script`), by induction on the
  cell: its minimum is taken at one of its predecessors, and the script ends in that edit.
-/

namespace OptimalStringAlignment

variable {α : Type}

/-! ## Scripts -/

/-- What happens to one piece. -/
inductive Edit (α : Type) where
  | keep (a : α)
  | insert (b : α)
  | delete (a : α)
  | substitute (a b : α)
  | swap (a b : α)
  deriving DecidableEq, Repr

/-- The piece before the edit. -/
def Edit.source : Edit α → List α
  | .keep a => [a]
  | .insert _ => []
  | .delete a => [a]
  | .substitute a _ => [a]
  | .swap a b => [a, b]

/-- The piece after the edit. -/
def Edit.target : Edit α → List α
  | .keep a => [a]
  | .insert b => [b]
  | .delete _ => []
  | .substitute _ b => [b]
  | .swap a b => [b, a]

def Edit.cost : Edit α → Nat
  | .keep _ => 0
  | _ => 1

/-- The edit that takes it back. -/
def Edit.inverse : Edit α → Edit α
  | .keep a => .keep a
  | .insert b => .delete b
  | .delete a => .insert a
  | .substitute a b => .substitute b a
  | .swap a b => .swap b a

/-- The script turns `s` into `t`. -/
structure Edits (script : List (Edit α)) (s t : List α) : Prop where
  source : script.flatMap Edit.source = s
  target : script.flatMap Edit.target = t

/-- The number of edits in a script. -/
def cost (script : List (Edit α)) : Nat := (script.map Edit.cost).sum

/-- The costs of the scripts from `s` to `t`. -/
def costs (s t : List α) : Set Nat := {n | ∃ script, Edits script s t ∧ cost script = n}

@[simp] theorem cost_nil : cost ([] : List (Edit α)) = 0 := rfl

@[simp] theorem cost_cons (e : Edit α) (script : List (Edit α)) :
    cost (e :: script) = e.cost + cost script := rfl

theorem cost_concat (script : List (Edit α)) (e : Edit α) :
    cost (script ++ [e]) = cost script + e.cost := by
  simp [cost]

theorem Edits.nil : Edits ([] : List (Edit α)) [] [] := ⟨rfl, rfl⟩

theorem Edits.concat {script : List (Edit α)} {s t : List α} (h : Edits script s t) (e : Edit α) :
    Edits (script ++ [e]) (s ++ e.source) (t ++ e.target) := by
  constructor
  · rw [List.flatMap_append, h.source, List.flatMap_singleton]
  · rw [List.flatMap_append, h.target, List.flatMap_singleton]

theorem Edits.of_cons {e : Edit α} {script : List (Edit α)} {s t : List α}
    (h : Edits (e :: script) s t) :
    ∃ s' t', Edits script s' t' ∧ s = e.source ++ s' ∧ t = e.target ++ t' :=
  ⟨_, _, ⟨rfl, rfl⟩, by rw [← h.source, List.flatMap_cons], by rw [← h.target, List.flatMap_cons]⟩

/-- A script can be taken back at its own cost. -/
theorem Edits.inverse {script : List (Edit α)} {s t : List α} (h : Edits script s t) :
    Edits (script.map Edit.inverse) t s ∧ cost (script.map Edit.inverse) = cost script := by
  have hpiece : ∀ e : Edit α, e.inverse.source = e.target ∧ e.inverse.target = e.source ∧
      e.inverse.cost = e.cost := by
    intro e
    cases e <;> exact ⟨rfl, rfl, rfl⟩
  refine ⟨⟨?_, ?_⟩, ?_⟩
  · rw [← h.target, List.flatMap_map]
    exact congrArg (script.flatMap ·) (funext fun e => (hpiece e).1)
  · rw [← h.source, List.flatMap_map]
    exact congrArg (script.flatMap ·) (funext fun e => (hpiece e).2.1)
  · rw [cost, List.map_map]
    exact congrArg (fun f => (script.map f).sum) (funext fun e => (hpiece e).2.2)

theorem costs_comm (s t : List α) : costs s t = costs t s := by
  have hle : ∀ s t : List α, costs s t ⊆ costs t s := by
    rintro s t n ⟨script, hscript, rfl⟩
    exact ⟨_, hscript.inverse.1, hscript.inverse.2⟩
  exact Set.Subset.antisymm (hle s t) (hle t s)

/-- A script without an edit changes nothing. -/
theorem Edits.eq_of_cost {script : List (Edit α)} : ∀ {s t : List α}, Edits script s t →
    cost script = 0 → s = t := by
  induction script with
  | nil =>
    intro s t h _
    exact h.source.symm.trans h.target
  | cons e script ih =>
    intro s t h hcost
    obtain ⟨s', t', h', rfl, rfl⟩ := h.of_cons
    rw [cost_cons] at hcost
    have hrest : s' = t' := ih h' (by omega)
    cases e with
    | keep a => exact congrArg (a :: ·) hrest
    | insert | delete | substitute | swap => cases Nat.eq_zero_of_add_eq_zero_right hcost

theorem Slip.cons {s t : List α} (a : α) (h : Slip s t) : Slip (a :: s) (a :: t) := by
  cases h with
  | substitute p q b c => exact .substitute (a :: p) q b c
  | insert p q b => exact .insert (a :: p) q b
  | delete p q b => exact .delete (a :: p) q b
  | swap p q b c => exact .swap (a :: p) q b c

/-- A script with one edit is a slip. -/
theorem Edits.slip_of_cost {script : List (Edit α)} : ∀ {s t : List α}, Edits script s t →
    cost script = 1 → Slip s t := by
  induction script with
  | nil => exact fun _ hcost => by cases hcost
  | cons e script ih =>
    intro s t h hcost
    obtain ⟨s', t', h', rfl, rfl⟩ := h.of_cons
    rw [cost_cons] at hcost
    cases e with
    | keep a => exact (ih h' (by rwa [Edit.cost, Nat.zero_add] at hcost)).cons a
    | insert b =>
      cases h'.eq_of_cost (Nat.add_left_cancel hcost)
      exact .insert [] s' b
    | delete a =>
      cases h'.eq_of_cost (Nat.add_left_cancel hcost)
      exact .delete [] s' a
    | substitute a b =>
      cases h'.eq_of_cost (Nat.add_left_cancel hcost)
      exact .substitute [] s' a b
    | swap a b =>
      cases h'.eq_of_cost (Nat.add_left_cancel hcost)
      exact .swap [] s' a b

theorem take_append_two {l : List α} {i : Nat} (h : i + 1 < l.length) :
    l.take i ++ [l[i], l[i + 1]] = l.take (i + 2) := by
  rw [← List.take_append_getElem h, ← List.take_append_getElem (Nat.lt_of_succ_lt h),
    List.append_assoc]
  rfl

/-! ## No script is cheaper than the table says -/

variable [DecidableEq α]

/-- A piece leads from one cell to a later one, which is at most its cost away. -/
theorem fill_le_piece (p q s t : List α) (e : Edit α) :
    fill (p ++ (e.source ++ s)) (q ++ (e.target ++ t)) (p.length + e.source.length)
        (q.length + e.target.length) ≤
      fill (p ++ (e.source ++ s)) (q ++ (e.target ++ t)) p.length q.length + e.cost := by
  have hsource : p.length + e.source.length ≤ (p ++ (e.source ++ s)).length := by simp
  have htarget : q.length + e.target.length ≤ (q ++ (e.target ++ t)).length := by simp
  cases e with
  | keep a => exact fill_match hsource htarget (by simp [Edit.source, Edit.target])
  | insert b => exact fill_insert hsource htarget
  | delete a => exact fill_delete hsource htarget
  | substitute a b => exact fill_substitute hsource htarget
  | swap a b =>
    have hcross : ∀ c d : α, (p ++ ([c, d] ++ s))[p.length + 1]? = (q ++ ([d, c] ++ t))[q.length]? := by
      simp
    have hcross' : ∀ c d : α, (p ++ ([c, d] ++ s))[p.length]? = (q ++ ([d, c] ++ t))[q.length + 1]? := by
      simp
    exact fill_swap hsource htarget (hcross a b) (hcross' a b)

theorem fill_le_cost {script : List (Edit α)} : ∀ {s t : List α} (p q : List α), Edits script s t →
    fill (p ++ s) (q ++ t) (p.length + s.length) (q.length + t.length) ≤
      fill (p ++ s) (q ++ t) p.length q.length + cost script := by
  induction script with
  | nil =>
    rintro s t p q ⟨rfl, rfl⟩
    exact Nat.le_refl _
  | cons e script ih =>
    intro s t p q h
    obtain ⟨s', t', h', rfl, rfl⟩ := h.of_cons
    have hpiece := fill_le_piece p q s' t' e
    have hrest := ih (p ++ e.source) (q ++ e.target) h'
    simp only [List.append_assoc, List.length_append, Nat.add_assoc] at hrest
    rw [List.length_append, List.length_append, cost_cons]
    omega

/-! ## The table's value is the cost of a script -/

variable {s t : List α}

/-- The minimum of a cell is taken at one of its predecessors. -/
theorem cell_cases (d : Table) (i j : Nat) :
    cell s t d (i + 1) (j + 1) = d i (j + 1) + 1 ∨ cell s t d (i + 1) (j + 1) = d (i + 1) j + 1 ∨
      (s[i]? = t[j]? ∧ cell s t d (i + 1) (j + 1) = d i j) ∨
      cell s t d (i + 1) (j + 1) = d i j + 1 ∨
      ∃ i' j', i = i' + 1 ∧ j = j' + 1 ∧ s[i]? = t[j']? ∧ s[i']? = t[j]? ∧
        cell s t d (i + 1) (j + 1) = d i' j' + 1 := by
  rw [cell]
  simp only [Nat.add_sub_cancel]
  generalize hbest : min (min (d i (j + 1) + 1) (d (i + 1) j + 1))
    (d i j + if s[i]? = t[j]? then 0 else 1) = best
  have hthree : best = d i (j + 1) + 1 ∨ best = d (i + 1) j + 1 ∨ (s[i]? = t[j]? ∧ best = d i j) ∨
      best = d i j + 1 := by
    rw [← hbest]
    by_cases heq : s[i]? = t[j]?
    · simp only [heq, if_true, true_and]
      omega
    · simp only [if_neg heq]
      omega
  split
  · next hswap =>
    rcases Nat.le_total best (d (i + 1 - 2) (j + 1 - 2) + 1) with hle | hle
    · rw [Nat.min_eq_left hle]
      tauto
    · rw [Nat.min_eq_right hle]
      obtain ⟨i', rfl⟩ : ∃ i', i = i' + 1 := ⟨i - 1, by omega⟩
      obtain ⟨j', rfl⟩ : ∃ j', j = j' + 1 := ⟨j - 1, by omega⟩
      exact .inr (.inr (.inr (.inr ⟨i', j', rfl, rfl, hswap.2.2.1, hswap.2.2.2, rfl⟩)))
  · tauto

theorem exists_script (n : Nat) : ∀ {i j : Nat}, i + j = n → i ≤ s.length → j ≤ t.length →
    ∃ script, Edits script (s.take i) (t.take j) ∧ cost script = fill s t i j := by
  induction n using Nat.strongRecOn with
  | ind n ih =>
    intro i j hn hi hj
    -- every way to reach a cell takes a cell before it and one more piece
    have hlast : ∀ (i' j' : Nat) (e : Edit α), i' + j' < n → i' ≤ s.length → j' ≤ t.length →
        s.take i' ++ e.source = s.take i → t.take j' ++ e.target = t.take j →
          fill s t i j = fill s t i' j' + e.cost →
            ∃ script, Edits script (s.take i) (t.take j) ∧ cost script = fill s t i j := by
      intro i' j' e hlt hi' hj' hsource htarget hcost
      obtain ⟨script, hscript, hcost'⟩ := ih _ hlt rfl hi' hj'
      refine ⟨script ++ [e], ?_, ?_⟩
      · rw [← hsource, ← htarget]
        exact hscript.concat e
      · rw [cost_concat, hcost', hcost]
    cases i with
    | zero =>
      cases j with
      | zero => exact ⟨[], .nil, (filled_fill.top 0).symm⟩
      | succ j =>
        refine hlast 0 j (.insert t[j]) (by omega) hi (by omega) rfl ?_ ?_
        · exact List.take_append_getElem hj
        · rw [filled_fill.top, filled_fill.top]
          rfl
    | succ i =>
      have hsource : s.take i ++ [s[i]] = s.take (i + 1) := List.take_append_getElem hi
      cases j with
      | zero =>
        refine hlast i 0 (.delete s[i]) (by omega) (by omega) hj hsource rfl ?_
        rw [filled_fill.left, filled_fill.left]
        rfl
      | succ j =>
        have htarget : t.take j ++ [t[j]] = t.take (j + 1) := List.take_append_getElem hj
        have hcell := fill_cell hi hj
        rcases cell_cases (s := s) (t := t) (fill s t) i j with hdel | hins | ⟨heq, hkeep⟩ | hsub |
          ⟨i', j', rfl, rfl, hcross, hcross', hswap⟩
        · exact hlast _ _ (.delete s[i]) (by omega) (by omega) hj hsource (List.append_nil _)
            (hcell.trans hdel)
        · exact hlast _ _ (.insert t[j]) (by omega) hi (by omega) (List.append_nil _) htarget
            (hcell.trans hins)
        · have hsame : s[i] = t[j] := by
            rwa [List.getElem?_eq_getElem hi, List.getElem?_eq_getElem hj, Option.some_inj] at heq
          refine hlast _ _ (.keep s[i]) (by omega) (by omega) (by omega) hsource ?_ (hcell.trans hkeep)
          rw [hsame]
          exact htarget
        · exact hlast _ _ (.substitute s[i] t[j]) (by omega) (by omega) (by omega) hsource htarget
            (hcell.trans hsub)
        · have hi' : i' < s.length := by omega
          have hj' : j' < t.length := by omega
          have hsame : s[i' + 1] = t[j'] := by
            rwa [List.getElem?_eq_getElem hi, List.getElem?_eq_getElem hj', Option.some_inj]
              at hcross
          have hsame' : s[i'] = t[j' + 1] := by
            rwa [List.getElem?_eq_getElem hi', List.getElem?_eq_getElem hj, Option.some_inj]
              at hcross'
          refine hlast _ _ (.swap s[i'] s[i' + 1]) (by omega) (by omega) (by omega)
            (take_append_two hi) ?_ (hcell.trans hswap)
          rw [hsame, hsame']
          exact take_append_two hj

/-- The distance is the cost of a cheapest script. -/
theorem osa_isLeast (s t : List α) : IsLeast (costs s t) (osa s t) := by
  constructor
  · obtain ⟨script, hscript, hcost⟩ :=
      exists_script (s := s) (t := t) _ rfl (Nat.le_refl s.length) (Nat.le_refl t.length)
    rw [List.take_length, List.take_length] at hscript
    exact ⟨script, hscript, hcost.trans osa_eq.symm⟩
  · rintro n ⟨script, hscript, rfl⟩
    have hle := fill_le_cost [] [] hscript
    simp only [List.nil_append, List.length_nil, Nat.zero_add, filled_fill.top] at hle
    rwa [osa_eq]

theorem osa_comm (s t : List α) : osa s t = osa t s := by
  have hleast := osa_isLeast t s
  rw [costs_comm] at hleast
  exact (osa_isLeast s t).unique hleast

theorem osa_eq_zero_iff : osa s t = 0 ↔ s = t := by
  constructor
  · intro h
    obtain ⟨script, hscript, hcost⟩ := (osa_isLeast s t).1
    exact hscript.eq_of_cost (hcost.trans h)
  · rintro rfl
    exact osa_self s

theorem osa_le_one_iff : osa s t ≤ 1 ↔ s = t ∨ Slip s t := by
  constructor
  · intro h
    obtain ⟨script, hscript, hcost⟩ := (osa_isLeast s t).1
    rcases Nat.le_one_iff_eq_zero_or_eq_one.mp h with hzero | hone
    · exact .inl (osa_eq_zero_iff.mp hzero)
    · exact .inr (hscript.slip_of_cost (hcost.trans hone))
  · rintro (rfl | hslip)
    · rw [osa_self]
      exact Nat.zero_le 1
    · exact osa_le_one hslip

end OptimalStringAlignment
