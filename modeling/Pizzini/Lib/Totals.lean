import Mathlib.Algebra.BigOperators.Group.Finset.Basic
import Pizzini.Lib.Dict

/-!
# Totals of a dictionary, and of some of its keys

`AList.total` sums a weight over all entries. An assignment changes it by one entry, a filter
counts as a weight, and what some of the keys weigh is no more than the total (`sum_le_total`):
so a bound on the total bounds whatever can be charged to different keys.
-/

namespace AList

variable {K V : Type}

/-- What passes a filter, counted as a weight. -/
theorem len_retain_eq_total (p : K → V → Bool) (m : Dict K V) :
    (m.retain p).len = m.total fun k v => if p k v then 1 else 0 := by
  show (m.entries.filter fun e => p e.1 e.2).length = _
  rw [total, ← List.countP_eq_length_filter]
  induction m.entries with
  | nil => rfl
  | cons e entries ih =>
    rw [List.countP_cons, List.map_cons, List.sum_cons, ih, Nat.add_comm]

variable [DecidableEq K]

/-- An assignment trades the key's old weight for the new one. -/
theorem total_put (weight : K → V → Nat) (m : Dict K V) (k : K) (o : Option V) :
    (m.put k o).total weight + ((m.lookup k).map (weight k)).getD 0 =
      m.total weight + (o.map (weight k)).getD 0 := by
  cases o with
  | some v => exact total_insert weight m k v
  | none => exact total_erase weight m k

/-- Different keys weigh together no more than all do. -/
theorem sum_le_total (weight : K → V → Nat) (S : Finset K) :
    ∀ m : Dict K V, ∑ k ∈ S, ((m.lookup k).map (weight k)).getD 0 ≤ m.total weight := by
  induction S using Finset.induction_on with
  | empty => exact fun m => Nat.zero_le _
  | insert k S hk ih =>
    intro m
    have hrest : ∑ k' ∈ S, ((m.lookup k').map (weight k')).getD 0 =
        ∑ k' ∈ S, (((m.erase k).lookup k').map (weight k')).getD 0 := by
      refine Finset.sum_congr rfl fun k' hk' => ?_
      rw [lookup_erase_ne (ne_of_mem_of_not_mem hk' hk)]
    have herase := total_erase weight m k
    have := ih (m.erase k)
    rw [Finset.sum_insert hk, hrest]
    omega

end AList
