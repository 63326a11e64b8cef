import Mathlib.Algebra.Order.Group.Defs
import Mathlib.Algebra.Order.Monoid.Unbundled.Basic
import Mathlib.Data.List.TakeWhile

/-!
# Sliding-window limiters

A limiter keeps a queue of the instants at which it said yes. Before each
decision it drops the instants that have left the window from the front, and it
says yes while fewer than `cap` are left. Instants are elements of any ordered
group.

`Tracks` relates the queue to all instants at which the limiter said yes. It is
kept by a refusal (`Tracks.prune`) and by an acceptance (`Tracks.accept`), and
contains the law of the limiter: no window holds more than `cap` of them.
-/

namespace SlidingWindow

variable {K : Type} [LinearOrder K]

/-- Drop the instants before `cutoff` from the front. -/
def prune (cutoff : K) (queue : List K) : List K := queue.dropWhile fun t => t < cutoff

/-- The front that `prune` drops. -/
theorem exists_prune (cutoff : K) (queue : List K) :
    ∃ gone, queue = gone ++ prune cutoff queue ∧ ∀ t ∈ gone, t < cutoff := by
  refine ⟨queue.takeWhile fun t => t < cutoff, List.takeWhile_append_dropWhile.symm, ?_⟩
  intro t ht
  have hp := List.mem_takeWhile_imp ht
  exact of_decide_eq_true hp

/-- Pruning at an earlier instant makes no difference to a later one. -/
theorem prune_prune {cutoff cutoff' : K} (h : cutoff ≤ cutoff') (queue : List K) :
    prune cutoff' (prune cutoff queue) = prune cutoff' queue := by
  induction queue with
  | nil => rfl
  | cons t queue ih =>
    by_cases ht : t < cutoff
    · have hcut : prune cutoff (t :: queue) = prune cutoff queue :=
        List.dropWhile_cons_of_pos (decide_eq_true ht)
      have hcut' : prune cutoff' (t :: queue) = prune cutoff' queue :=
        List.dropWhile_cons_of_pos (decide_eq_true (ht.trans_le h))
      rw [hcut, hcut', ih]
    · have hcut : prune cutoff (t :: queue) = t :: queue :=
        List.dropWhile_cons_of_neg (by simpa using ht)
      rw [hcut]

variable [AddCommGroup K]

/-- The accepted instants in the window of length `window` that starts at `a`. -/
def inWindow (window a : K) (accepted : List K) : List K :=
  accepted.filter fun t => a ≤ t ∧ t < a + window

/-- `queue` holds what still counts of the accepted instants: those it no
longer holds had left the window by `clock`. -/
structure Tracks (window : K) (cap : Nat) (clock : K) (accepted queue : List K) : Prop where
  split : ∃ gone, accepted = gone ++ queue ∧ ∀ t ∈ gone, t + window < clock
  law : ∀ a, (inWindow window a accepted).length ≤ cap

namespace Tracks

variable {window clock now : K} {cap : Nat} {accepted queue : List K}

/-- Nothing has been accepted yet. -/
theorem empty (window : K) (cap : Nat) (clock : K) :
    Tracks window cap clock [] [] where
  split := ⟨[], rfl, fun _ h => absurd h List.not_mem_nil⟩
  law := fun _ => Nat.zero_le _

/-- A refusal elsewhere: time passes. -/
theorem mono (h : Tracks window cap clock accepted queue) (hnow : clock ≤ now) :
    Tracks window cap now accepted queue where
  split := by
    obtain ⟨gone, hsplit, hgone⟩ := h.split
    exact ⟨gone, hsplit, fun t ht => (hgone t ht).trans_le hnow⟩
  law := h.law

variable [IsOrderedAddMonoid K]

/-- A refusal, or a collection: the queue is pruned, no more. -/
theorem prune (h : Tracks window cap clock accepted queue) (hnow : clock ≤ now) :
    Tracks window cap now accepted (prune (now - window) queue) where
  split := by
    obtain ⟨gone, hsplit, hgone⟩ := h.split
    obtain ⟨front, hqueue, hfront⟩ := exists_prune (now - window) queue
    refine ⟨gone ++ front, ?_, fun t ht => ?_⟩
    · rw [List.append_assoc, ← hqueue]
      exact hsplit
    · cases List.mem_append.mp ht with
      | inl hold => exact (hgone t hold).trans_le hnow
      | inr hnew => exact lt_sub_iff_add_lt.mp (hfront t hnew)
  law := h.law

/-- An acceptance: a window with the new instant in it holds nothing that has
left the queue, and the queue had room. -/
theorem accept (h : Tracks window cap clock accepted queue) (hnow : clock ≤ now)
    (hroom : queue.length < cap) : Tracks window cap now (accepted ++ [now]) (queue ++ [now]) where
  split := by
    obtain ⟨gone, hsplit, hgone⟩ := h.split
    refine ⟨gone, ?_, fun t ht => (hgone t ht).trans_le hnow⟩
    rw [hsplit, List.append_assoc]
  law := by
    intro a
    rw [inWindow, List.filter_append, List.length_append]
    by_cases hin : a ≤ now ∧ now < a + window
    · obtain ⟨gone, hsplit, hgone⟩ := h.split
      have hold : (gone.filter fun t => a ≤ t ∧ t < a + window) = [] := by
        rw [List.filter_eq_nil_iff]
        intro t ht hwindow
        have hlate : t + window < a + window := ((hgone t ht).trans_le hnow).trans hin.2
        exact absurd (of_decide_eq_true hwindow).1 (not_le_of_gt (lt_of_add_lt_add_right hlate))
      have hqueue : (queue.filter fun t => a ≤ t ∧ t < a + window).length ≤ queue.length :=
        List.length_filter_le _ _
      have hone : ([now].filter fun t => a ≤ t ∧ t < a + window).length ≤ 1 :=
        List.length_filter_le _ _
      rw [hsplit, List.filter_append, hold, List.nil_append]
      omega
    · have hnone : ([now].filter fun t => a ≤ t ∧ t < a + window) = [] :=
        List.filter_cons_of_neg (by simpa using hin)
      rw [hnone, List.length_nil, Nat.add_zero]
      exact h.law a

end Tracks

end SlidingWindow
