/-!
# Computations that keep their state when they fail

`Op S E α`: a computation over a state `S` that ends in a value or an error and
leaves the state as it was at that point, as a function with `&mut self` and a
`Result` does. `Keeps I x` says that `x` keeps the invariant `I`, on both ends;
the rules below follow the shape of a program.
-/

namespace Stateful

/-- A computation over `S` that may fail. -/
structure Op (S E α : Type) where
  run : S → Except E α × S

variable {S E α β : Type}

namespace Op

def pure (a : α) : Op S E α := ⟨fun s => (.ok a, s)⟩

def bind (x : Op S E α) (f : α → Op S E β) : Op S E β where
  run s := match x.run s with
    | (.ok a, s') => (f a).run s'
    | (.error e, s') => (.error e, s')

instance : Monad (Op S E) where
  pure := Op.pure
  bind := Op.bind

/-- The state. -/
def get : Op S E S := ⟨fun s => (.ok s, s)⟩

def modify (f : S → S) : Op S E Unit := ⟨fun s => (.ok (), f s)⟩

def throw (e : E) : Op S E α := ⟨fun s => (.error e, s)⟩

/-- A result that does not depend on the state (`result?`). -/
def lift (x : Except E α) : Op S E α := ⟨fun s => (x, s)⟩

end Op

theorem bind_of_ok {x : Op S E α} {f : α → Op S E β} {s s' : S} {a : α}
    (h : x.run s = (.ok a, s')) : (x >>= f).run s = (f a).run s' := by
  show (Op.bind x f).run s = (f a).run s'
  simp only [Op.bind, h]

theorem bind_of_error {x : Op S E α} {f : α → Op S E β} {s s' : S} {e : E}
    (h : x.run s = (.error e, s')) : (x >>= f).run s = (.error e, s') := by
  show (Op.bind x f).run s = (.error e, s')
  simp only [Op.bind, h]

@[simp] theorem run_pure (a : α) (s : S) : (Pure.pure a : Op S E α).run s = (.ok a, s) := rfl

@[simp] theorem run_get (s : S) : (Op.get : Op S E S).run s = (.ok s, s) := rfl

@[simp] theorem run_modify (f : S → S) (s : S) :
    (Op.modify f : Op S E Unit).run s = (.ok (), f s) := rfl

@[simp] theorem run_throw (e : E) (s : S) : (Op.throw e : Op S E α).run s = (.error e, s) := rfl

@[simp] theorem run_lift (x : Except E α) (s : S) : (Op.lift x : Op S E α).run s = (x, s) := rfl

/-- A sequence that succeeds succeeded with its first part. -/
theorem bind_ok {x : Op S E α} {f : α → Op S E β} {s s' : S} {b : β}
    (h : (x >>= f).run s = (.ok b, s')) :
    ∃ a mid, x.run s = (.ok a, mid) ∧ (f a).run mid = (.ok b, s') := by
  cases hx : x.run s with
  | mk result mid =>
    cases result with
    | ok a => exact ⟨a, mid, rfl, (bind_of_ok hx).symm.trans h⟩
    | error e =>
      rw [bind_of_error hx] at h
      cases h

theorem lift_ok {x : Except E α} {s s' : S} {a : α} (h : (Op.lift x).run s = (.ok a, s')) :
    x = .ok a ∧ s' = s := by
  obtain ⟨hx, hs⟩ := Prod.mk.inj h
  exact ⟨hx, hs.symm⟩

/-! ## Invariants -/

def Keeps (I : S → Prop) (x : Op S E α) : Prop := ∀ s, I s → I (x.run s).2

namespace Keeps

variable {I : S → Prop} {x : Op S E α}

theorem pure (a : α) : Keeps I (Pure.pure a : Op S E α) := fun _ h => h

theorem throw (e : E) : Keeps I (Op.throw e : Op S E α) := fun _ h => h

theorem modify {f : S → S} (h : ∀ s, I s → I (f s)) : Keeps I (Op.modify f : Op S E Unit) := h

theorem bind {f : α → Op S E β} (hx : Keeps I x) (hf : ∀ a, Keeps I (f a)) :
    Keeps I (x >>= f) := by
  intro s hs
  have hmid : I (x.run s).2 := hx s hs
  cases hrun : x.run s with
  | mk result mid =>
    rw [hrun] at hmid
    cases result with
    | ok a =>
      rw [bind_of_ok hrun]
      exact hf a mid hmid
    | error e =>
      rw [bind_of_error hrun]
      exact hmid

/-- What follows a result may use that the result succeeded. -/
theorem lift_bind {r : Except E α} {f : α → Op S E β} (hf : ∀ a, r = .ok a → Keeps I (f a)) :
    Keeps I (Op.lift r >>= f) := by
  intro s hs
  cases r with
  | ok a =>
    rw [bind_of_ok (run_lift (.ok a) s)]
    exact hf a rfl s hs
  | error e =>
    rw [bind_of_error (run_lift (.error e) s)]
    exact hs

/-- What follows a reading of the state may use the invariant. -/
theorem get_bind {f : S → Op S E β} (hf : ∀ s, I s → I ((f s).run s).2) :
    Keeps I (Op.get >>= f) := by
  intro s hs
  rw [bind_of_ok (run_get s)]
  exact hf s hs

theorem ite {c : Prop} [Decidable c] {y : Op S E α} (hx : c → Keeps I x) (hy : ¬ c → Keeps I y) :
    Keeps I (if c then x else y) := by
  by_cases hc : c
  · rw [if_pos hc]
    exact hx hc
  · rw [if_neg hc]
    exact hy hc

end Keeps

end Stateful
