import Mathlib.Data.List.Basic

/-!
# Lists from which dead elements were removed

`Thinned dead l q`: `q` is `l` without some of its elements, all of them
`dead`. A queue with expiry is a thinned list of what was put into it. What is
removed may be anywhere (`Thinned.filter`), appending carries over
(`Thinned.append`), a front part of the queue is a front part of the list
(`Thinned.split`), and a test that dead elements fail cannot tell the two
lists apart (`Thinned.filter_eq`).
-/

/-- Some elements are left out, and these are dead. -/
inductive Thinned {α : Type*} (dead : α → Prop) : List α → List α → Prop where
  | nil : Thinned dead [] []
  | keep {x : α} {l q : List α} (h : Thinned dead l q) : Thinned dead (x :: l) (x :: q)
  | drop {x : α} {l q : List α} (hx : dead x) (h : Thinned dead l q) : Thinned dead (x :: l) q

namespace Thinned

variable {α : Type*} {dead dead' : α → Prop} {l l' q q' r : List α}

theorem refl : ∀ l : List α, Thinned dead l l
  | [] => nil
  | _ :: l => keep (refl l)

theorem mono (h : Thinned dead l q) (hmono : ∀ x, dead x → dead' x) : Thinned dead' l q := by
  induction h with
  | nil => exact nil
  | keep _ ih => exact keep ih
  | drop hx _ ih => exact drop (hmono _ hx) ih

theorem trans (h : Thinned dead l q) (h' : Thinned dead q r) : Thinned dead l r := by
  induction h generalizing r with
  | nil => exact h'
  | keep _ ih =>
    cases h' with
    | keep h' => exact keep (ih h')
    | drop hx h' => exact drop hx (ih h')
  | drop hx _ ih => exact drop hx (ih h')

/-- A filter that removes only dead elements. -/
theorem filter {p : α → Bool} (hp : ∀ x, p x = false → dead x) :
    ∀ l : List α, Thinned dead l (l.filter p)
  | [] => nil
  | x :: l => by
    cases hx : p x with
    | true =>
      rw [List.filter_cons_of_pos hx]
      exact keep (filter hp l)
    | false =>
      rw [List.filter_cons_of_neg (by rw [hx]; exact Bool.false_ne_true)]
      exact drop (hp x hx) (filter hp l)

theorem append (h : Thinned dead l q) (h' : Thinned dead l' q') :
    Thinned dead (l ++ l') (q ++ q') := by
  induction h with
  | nil => exact h'
  | keep _ ih => exact keep ih
  | drop hx _ ih => exact drop hx ih

/-- Where the queue is cut, the list can be cut. -/
theorem split (h : Thinned dead l (q ++ q')) :
    ∃ l₁ l₂, l = l₁ ++ l₂ ∧ Thinned dead l₁ q ∧ Thinned dead l₂ q' := by
  induction l generalizing q with
  | nil =>
    cases q with
    | nil => exact ⟨[], [], rfl, nil, h⟩
    | cons x q => cases h
  | cons x l ih =>
    cases q with
    | nil => exact ⟨[], x :: l, rfl, nil, h⟩
    | cons y q =>
      cases h with
      | keep h =>
        obtain ⟨l₁, l₂, rfl, h₁, h₂⟩ := ih h
        exact ⟨x :: l₁, l₂, rfl, keep h₁, h₂⟩
      | drop hx h =>
        obtain ⟨l₁, l₂, rfl, h₁, h₂⟩ := ih (q := y :: q) h
        exact ⟨x :: l₁, l₂, rfl, drop hx h₁, h₂⟩

theorem length_le (h : Thinned dead l q) : q.length ≤ l.length := by
  induction h with
  | nil => exact Nat.le_refl _
  | keep _ ih => exact Nat.succ_le_succ ih
  | drop _ _ ih => exact Nat.le_succ_of_le ih

/-- What dead elements fail, list and queue answer alike. -/
theorem filter_eq {p : α → Bool} (h : Thinned dead l q) (hp : ∀ x, dead x → p x = false) :
    q.filter p = l.filter p := by
  induction h with
  | nil => rfl
  | keep _ ih => rw [List.filter_cons, List.filter_cons, ih]
  | drop hx _ ih => rw [ih, List.filter_cons_of_neg (by rw [hp _ hx]; exact Bool.false_ne_true)]

end Thinned
