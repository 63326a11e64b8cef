import Mathlib.Data.List.Infix

/-!
# Receivers that fall behind

A sequence of numbered messages, of which a receiver is reached by some. The
receiver is `lag` messages behind; a message that reaches it while it is fewer
than `w` behind brings it up to date, any other message leaves it one further
behind. `lag_lt_iff`: it is fewer than `w` behind exactly when it never missed
`w` messages in a row. In particular a receiver that once missed `w` in a row
stays behind forever.
-/

namespace Gaps

/-- How far behind a receiver is after one more message. -/
def lagStep (w n : Nat) (reached : Bool) : Nat := if reached ∧ n < w then 0 else n + 1

/-- How far behind a receiver is after the messages that did or did not reach it. -/
def lag (w : Nat) (flags : List Bool) : Nat := flags.foldl (lagStep w) 0

theorem lag_append_singleton (w : Nat) (flags : List Bool) (b : Bool) :
    lag w (flags ++ [b]) = lagStep w (lag w flags) b := by
  rw [lag, List.foldl_append]
  rfl

/-- A block of misses at the front ends before the first hit. -/
theorem replicate_prefix_append_cons {w : Nat} :
    ∀ {A B : List Bool}, List.replicate w false <+: A ++ true :: B →
      List.replicate w false <+: A := by
  induction w with
  | zero => exact fun _ => List.nil_prefix
  | succ w ih =>
    intro A B h
    cases A with
    | nil =>
      rw [List.nil_append, List.replicate_succ, List.cons_prefix_cons] at h
      cases h.1
    | cons a A =>
      rw [List.cons_append, List.replicate_succ, List.cons_prefix_cons] at h
      rw [List.replicate_succ, List.cons_prefix_cons]
      exact ⟨h.1, ih h.2⟩

/-- A block of misses lies on one side of a hit. -/
theorem replicate_infix_append_cons {w : Nat} {A B : List Bool} :
    List.replicate w false <:+: A ++ true :: B ↔
      List.replicate w false <:+: A ∨ List.replicate w false <:+: B := by
  constructor
  · intro h
    induction A with
    | nil =>
      rw [List.nil_append, List.infix_cons_iff] at h
      rcases h with hprefix | hinfix
      · exact .inl (replicate_prefix_append_cons (A := []) hprefix).isInfix
      · exact .inr hinfix
    | cons a A ih =>
      rw [List.cons_append, List.infix_cons_iff] at h
      rcases h with hprefix | hinfix
      · exact .inl (replicate_prefix_append_cons (A := a :: A) hprefix).isInfix
      · exact (ih hinfix).imp_left fun hA => List.infix_cons_iff.mpr (.inr hA)
  · rintro (hA | hB)
    · exact hA.trans (List.prefix_append A _).isInfix
    · exact hB.trans ((List.suffix_cons true B).trans (List.suffix_append A _)).isInfix

/-- Once `w` behind, no message helps. -/
theorem le_foldl_lagStep {w : Nat} (flags : List Bool) :
    ∀ {n : Nat}, w ≤ n → w ≤ flags.foldl (lagStep w) n := by
  induction flags with
  | nil => exact id
  | cons b flags ih =>
    intro n h
    rw [List.foldl_cons]
    refine ih ?_
    rw [lagStep, if_neg (by omega)]
    omega

/-- The lag is below `w` exactly when the misses counted at the start and those
of the sequence have no `w` in a row. -/
theorem foldl_lagStep_lt_iff {w : Nat} (flags : List Bool) :
    ∀ n, flags.foldl (lagStep w) n < w ↔
      ¬ List.replicate w false <:+: List.replicate n false ++ flags := by
  induction flags with
  | nil =>
    intro n
    rw [List.foldl_nil, List.append_nil]
    constructor
    · intro hlt hinfix
      have := hinfix.length_le
      rw [List.length_replicate, List.length_replicate] at this
      omega
    · intro hno
      by_contra hle
      obtain ⟨k, rfl⟩ := Nat.exists_eq_add_of_le (Nat.le_of_not_lt hle)
      refine hno ?_
      rw [List.replicate_add]
      exact (List.prefix_append _ _).isInfix
  | cons b flags ih =>
    intro n
    rw [List.foldl_cons]
    cases b with
    | false =>
      rw [lagStep, if_neg (by simp), ih]
      rw [List.replicate_succ', List.append_assoc, List.singleton_append]
    | true =>
      by_cases hn : n < w
      · rw [lagStep, if_pos ⟨rfl, hn⟩, ih, replicate_infix_append_cons]
        have hshort : ¬ List.replicate w false <:+: List.replicate n false := by
          intro hinfix
          have := hinfix.length_le
          rw [List.length_replicate, List.length_replicate] at this
          omega
        simp [hshort]
      · have hle : w ≤ flags.foldl (lagStep w) (n + 1) :=
          le_foldl_lagStep flags (by omega)
        rw [lagStep, if_neg (by omega)]
        constructor
        · intro hlt
          omega
        · intro hno
          refine absurd ?_ hno
          obtain ⟨k, rfl⟩ := Nat.exists_eq_add_of_le (Nat.le_of_not_lt hn)
          rw [List.replicate_add, List.append_assoc]
          exact (List.prefix_append _ _).isInfix

/-- A receiver is fewer than `w` behind exactly when it never missed `w` messages
in a row. -/
theorem lag_lt_iff {w : Nat} {flags : List Bool} :
    lag w flags < w ↔ ¬ List.replicate w false <:+: flags := by
  rw [lag, foldl_lagStep_lt_iff, List.replicate_zero, List.nil_append]

end Gaps
