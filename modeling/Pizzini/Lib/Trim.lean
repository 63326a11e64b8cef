import Mathlib.Data.List.Infix
import Mathlib.Data.List.TakeWhile

/-!
# Trimming a list at both ends

`trimming P` drops the elements with `P` at the two ends. What is left is a part of the list
whose ends are free of `P` (`head?_trimming`, `getLast?_trimming`), and a list whose ends are
free of `P` is left alone (`trimming_eq_self`).
-/

namespace Trim

variable {α : Type} {P : α → Bool} {l : List α}

def trimming (P : α → Bool) (l : List α) : List α := ((l.dropWhile P).reverse.dropWhile P).reverse

theorem dropWhile_eq_self (h : l.head?.any P = false) : l.dropWhile P = l := by
  cases l with
  | nil => rfl
  | cons a l => exact List.dropWhile_cons_of_neg (by simpa using h)

theorem head?_dropWhile (P : α → Bool) (l : List α) : (l.dropWhile P).head?.any P = false := by
  have hnot := List.head?_dropWhile_not P l
  cases hdropped : (l.dropWhile P).head? with
  | none => rfl
  | some a =>
    rw [hdropped] at hnot
    exact hnot

/-- A beginning of a list begins as the list does. -/
theorem head?_of_isPrefix {a b : List α} (h : a <+: b) (hne : a ≠ []) : a.head? = b.head? := by
  obtain ⟨rest, rfl⟩ := h
  cases a with
  | nil => exact absurd rfl hne
  | cons c a => rfl

theorem trimming_isPrefix_dropWhile (P : α → Bool) (l : List α) :
    trimming P l <+: l.dropWhile P := by
  have hsuffix := List.dropWhile_suffix P (l := (l.dropWhile P).reverse)
  rw [trimming]
  simpa using List.reverse_prefix.mpr hsuffix

theorem trimming_isInfix (P : α → Bool) (l : List α) : trimming P l <:+: l :=
  (trimming_isPrefix_dropWhile P l).isInfix.trans (List.dropWhile_suffix P).isInfix

theorem getLast?_trimming (P : α → Bool) (l : List α) : (trimming P l).getLast?.any P = false := by
  rw [trimming, List.getLast?_reverse]
  exact head?_dropWhile P _

theorem head?_trimming (P : α → Bool) (l : List α) : (trimming P l).head?.any P = false := by
  cases hleft : trimming P l with
  | nil => rfl
  | cons c rest =>
    rw [← hleft, head?_of_isPrefix (trimming_isPrefix_dropWhile P l) (by rw [hleft]; simp)]
    exact head?_dropWhile P _

theorem trimming_isPrefix (hhead : l.head?.any P = false) : trimming P l <+: l := by
  have h := trimming_isPrefix_dropWhile P l
  rwa [dropWhile_eq_self hhead] at h

/-- A list that begins without `P` is left alone exactly when it ends without `P`. -/
theorem trimming_eq_self_iff (hhead : l.head?.any P = false) :
    trimming P l = l ↔ l.getLast?.any P = false := by
  constructor
  · intro h
    rw [← h]
    exact getLast?_trimming P l
  · intro h
    rw [trimming, dropWhile_eq_self hhead, dropWhile_eq_self (by rwa [List.head?_reverse]),
      List.reverse_reverse]

theorem trimming_eq_nil (hhead : l.head?.any P = false) (h : trimming P l = []) : l = [] := by
  rw [trimming, dropWhile_eq_self hhead, List.reverse_eq_nil_iff, List.dropWhile_eq_nil_iff] at h
  cases l with
  | nil => rfl
  | cons c rest =>
    have hfirst : P c = true := h c (List.mem_reverse.mpr List.mem_cons_self)
    rw [List.head?_cons, Option.any_some, hfirst] at hhead
    cases hhead

end Trim
