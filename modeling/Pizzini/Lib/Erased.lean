import Mathlib.Data.List.Sort

/-!
# Lists with some elements left out

`Erased p l l'`: `l'` is `l` without some of the elements that satisfy `p`. It is
the relation between the queue of a system and the queue of the same system that
never saw certain inputs: what the second one lacks is known to be of that kind,
what both have is in the same order. It survives appending, decoding and stable
sorting.
-/

universe u v

variable {α : Type u} {β : Type v}

/-- `l'` is `l` without some elements that satisfy `p`. -/
inductive List.Erased (p : α → Prop) : List α → List α → Prop where
  | nil : Erased p [] []
  | keep (a : α) {l l' : List α} (h : Erased p l l') : Erased p (a :: l) (a :: l')
  | drop {a : α} (ha : p a) {l l' : List α} (h : Erased p l l') : Erased p (a :: l) l'

namespace List.Erased

variable {p : α → Prop} {l l' : List α} {a : α}

theorem refl (l : List α) : Erased p l l := by
  induction l with
  | nil => exact .nil
  | cons a l ih => exact .keep a ih

theorem sublist (h : Erased p l l') : l'.Sublist l := by
  induction h with
  | nil => exact List.Sublist.refl _
  | keep a _ ih => exact ih.cons_cons a
  | drop _ _ ih => exact ih.cons _

/-- An element of another kind is in both or in neither. -/
theorem mem_iff (h : Erased p l l') (ha : ¬ p a) : a ∈ l ↔ a ∈ l' := by
  induction h with
  | nil => exact Iff.rfl
  | keep b _ ih => rw [List.mem_cons, List.mem_cons, ih]
  | drop hb _ ih =>
    rw [List.mem_cons, ih]
    constructor
    · rintro (rfl | hmem)
      · exact absurd hb ha
      · exact hmem
    · exact .inr

/-- Elements of another kind are as many in both. -/
theorem countP_eq (h : Erased p l l') {q : α → Bool} (hq : ∀ a, p a → q a = false) :
    l.countP q = l'.countP q := by
  induction h with
  | nil => rfl
  | keep b _ ih => rw [List.countP_cons, List.countP_cons, ih]
  | drop hb _ ih => rw [List.countP_cons, if_neg (by rw [hq _ hb]; exact Bool.false_ne_true), ih,
      Nat.add_zero]

/-- Nothing is missing from a list that has no element of the kind. -/
theorem eq_of_forall (h : Erased p l l') (hnone : ∀ a ∈ l, ¬ p a) : l' = l := by
  induction h with
  | nil => rfl
  | keep b _ ih => rw [ih fun a ha => hnone a (List.mem_cons_of_mem _ ha)]
  | drop hb _ _ => exact absurd hb (hnone _ List.mem_cons_self)

theorem append_both (h : Erased p l l') (r : List α) : Erased p (l ++ r) (l' ++ r) := by
  induction h with
  | nil => exact refl r
  | keep b _ ih => exact .keep b ih
  | drop hb _ ih => exact .drop hb ih

theorem append_drop (h : Erased p l l') (ha : p a) : Erased p (l ++ [a]) l' := by
  induction h with
  | nil => exact .drop ha .nil
  | keep b _ ih => exact .keep b ih
  | drop hb _ ih => exact .drop hb ih

/-- Decoding keeps the relation if what is left out decodes to something left out. -/
theorem filterMap (h : Erased p l l') {f : α → Option β} {q : β → Prop}
    (hf : ∀ a b, p a → f a = some b → q b) : Erased q (l.filterMap f) (l'.filterMap f) := by
  induction h with
  | nil => exact .nil
  | keep b _ ih =>
    rw [List.filterMap_cons, List.filterMap_cons]
    cases f b with
    | none => exact ih
    | some c => exact .keep c ih
  | drop hb _ ih =>
    rename_i b l l' _
    rw [List.filterMap_cons]
    cases hfb : f b with
    | none => exact ih
    | some c => exact .drop (hf b c hb hfb) ih

section Sorting

variable {r : α → α → Prop} [DecidableRel r]

theorem orderedInsert_drop (h : Erased p l l') (ha : p a) :
    Erased p (l.orderedInsert r a) l' := by
  induction h with
  | nil => exact .drop ha .nil
  | keep b hrest ih =>
    rw [List.orderedInsert_cons]
    split
    · exact .drop ha (.keep b hrest)
    · exact .keep b ih
  | drop hb hrest ih =>
    rw [List.orderedInsert_cons]
    split
    · exact .drop ha (.drop hb hrest)
    · exact .drop hb ih

/-- Insertion into sorted lists. -/
theorem orderedInsert_both [IsTrans α r] (h : Erased p l l') (hsorted : l.Pairwise r) (a : α) :
    Erased p (l.orderedInsert r a) (l'.orderedInsert r a) := by
  induction h with
  | nil => exact .keep a .nil
  | keep b hrest ih =>
    rw [List.orderedInsert_cons, List.orderedInsert_cons]
    split
    · exact .keep a (.keep b hrest)
    · exact .keep b (ih (List.pairwise_cons.mp hsorted).2)
  | drop hb hrest ih =>
    rename_i b l l'
    obtain ⟨hle, hsorted⟩ := List.pairwise_cons.mp hsorted
    rw [List.orderedInsert_cons]
    split
    · -- `a` goes in front of `b`, and `b` is below everything that follows
      rename_i hab
      have hfront : l'.orderedInsert r a = a :: l' := by
        cases hl' : l' with
        | nil => rfl
        | cons c l'' =>
          have hc : c ∈ l := hrest.sublist.subset (by rw [hl']; exact List.mem_cons_self)
          exact List.orderedInsert_cons_of_le r l'' (Trans.trans hab (hle c hc))
      rw [hfront]
      exact .keep a (.drop hb hrest)
    · exact .drop hb (ih hsorted)

/-- Stable sorting keeps the relation. -/
theorem insertionSort [IsTrans α r] [Std.Total r] (h : Erased p l l') :
    Erased p (l.insertionSort r) (l'.insertionSort r) := by
  induction h with
  | nil => exact .nil
  | keep b hrest ih =>
    rw [List.insertionSort_cons, List.insertionSort_cons]
    exact ih.orderedInsert_both (List.pairwise_insertionSort r _) b
  | drop hb _ ih =>
    rw [List.insertionSort_cons]
    exact ih.orderedInsert_drop hb

end Sorting

end List.Erased
