import Mathlib.Data.List.Induction
import Mathlib.Logic.Relation

/-!
# Runs of a labelled step relation

`Reach step ok s s'`: a run from `s` to `s'` all of whose steps are `step`s
that meet `ok`. Safety properties are proved from `Reach.invariant`: what one
step keeps, a run keeps.

`FirstAt P pre e`: in a sequence of events, `e` after `pre` is the one with
which `P` comes to hold. For a property that stays, there is one such event in
every sequence that has it in the end (`exists_firstAt`), and only one
(`FirstAt.unique`).
-/

namespace Runs

variable {S E : Type}

/-- A run of `step` whose steps all meet `ok`, a condition on the state before
the step and its event. -/
def Reach (step : S → E → S → Prop) (ok : S → E → Prop) : S → S → Prop :=
  Relation.ReflTransGen fun s s' => ∃ e, ok s e ∧ step s e s'

namespace Reach

variable {step : S → E → S → Prop} {ok ok' : S → E → Prop} {s s' s'' : S}

theorem refl : Reach step ok s s := Relation.ReflTransGen.refl

theorem snoc (h : Reach step ok s s') {e : E} (hstep : step s' e s'') (hok : ok s' e) :
    Reach step ok s s'' :=
  Relation.ReflTransGen.tail h ⟨e, hok, hstep⟩

theorem trans (h : Reach step ok s s') (h' : Reach step ok s' s'') : Reach step ok s s'' :=
  Relation.ReflTransGen.trans h h'

/-- A run under a condition is a run under a weaker one. -/
theorem imp (h : Reach step ok s s') (himp : ∀ s e, ok s e → ok' s e) : Reach step ok' s s' :=
  Relation.ReflTransGen.mono (fun s _ ⟨e, hok, hstep⟩ => ⟨e, himp s e hok, hstep⟩) _ _ h

/-- A property that every permitted step keeps holds along the run. -/
theorem invariant (h : Reach step ok s s') (Inv : S → Prop)
    (hkeep : ∀ {s e s'}, Inv s → ok s e → step s e s' → Inv s') (h₀ : Inv s) : Inv s' := by
  induction h with
  | refl => exact h₀
  | tail _ hlast ih =>
    obtain ⟨e, hok, hstep⟩ := hlast
    exact hkeep ih hok hstep

/-- A loop whose turns are runs is a run. `P` is the loop's invariant, on the state and the
turns to come. -/
theorem foldl {A : Type} {f : S → A → S} (P : S → List A → Prop)
    (hturn : ∀ {s a as}, P s (a :: as) → Reach step ok s (f s a) ∧ P (f s a) as) :
    ∀ {as : List A} {s : S}, P s as → Reach step ok s (as.foldl f s) := by
  intro as
  induction as with
  | nil => exact fun _ => refl
  | cons a as ih =>
    intro s hP
    obtain ⟨hrun, hnext⟩ := hturn hP
    exact hrun.trans (ih hnext)

end Reach

/-! ## The first time -/

/-- With `e`, and not before it, the events meet `P`. -/
def FirstAt (P : List E → Prop) (pre : List E) (e : E) : Prop :=
  ¬ P pre ∧ P (pre ++ [e])

theorem exists_firstAt {P : List E → Prop} (h₀ : ¬ P []) {es : List E} (h : P es) :
    ∃ pre e post, es = pre ++ e :: post ∧ FirstAt P pre e := by
  induction es using List.reverseRecOn with
  | nil => exact absurd h h₀
  | append_singleton es e ih =>
    by_cases hes : P es
    · obtain ⟨pre, e', post, rfl, hfirst⟩ := ih hes
      exact ⟨pre, e', post ++ [e], by simp, hfirst⟩
    · exact ⟨es, e, [], rfl, hes, h⟩

theorem FirstAt.unique {P : List E → Prop} (hmono : ∀ {es : List E} (more), P es → P (es ++ more))
    {pre pre' post post' : List E} {e e' : E} (h : FirstAt P pre e) (h' : FirstAt P pre' e')
    (heq : pre ++ e :: post = pre' ++ e' :: post') : pre = pre' ∧ e = e' ∧ post = post' := by
  -- neither list of earlier events contains the other's first event
  have hshort : ∀ {xs ys more rest : List E} {x : E}, FirstAt P xs x → ¬ P ys → ys = xs ++ more →
      x :: rest = more ++ e :: post ∨ x :: rest = more ++ e' :: post' → more = [] := by
    intro xs ys more rest x hx hys hsplit hcons
    cases more with
    | nil => rfl
    | cons y more =>
      have hxy : x = y := by
        rcases hcons with hcons | hcons <;> exact (List.cons.inj hcons).1
      subst hxy
      refine absurd ?_ hys
      rw [hsplit, List.append_cons]
      exact hmono more hx.2
  rcases List.append_eq_append_iff.mp heq with ⟨more, hpre, hcons⟩ | ⟨more, hpre, hcons⟩
  · have hnil := hshort h h'.1 hpre (.inr hcons)
    subst hnil
    rw [List.append_nil] at hpre
    obtain ⟨he, hpost⟩ := List.cons.inj hcons
    exact ⟨hpre.symm, he, hpost⟩
  · have hnil := hshort h' h.1 hpre (.inl hcons)
    subst hnil
    rw [List.append_nil] at hpre
    obtain ⟨he, hpost⟩ := List.cons.inj hcons
    exact ⟨hpre, he.symm, hpost.symm⟩

end Runs
