import Mathlib.Data.List.Forall2

/-!
# Two machines side by side

For a simulation between two partial machines it is enough to relate single
calls. `Option.Rel` relates their results: both stop, or both go on and the
results are related. It passes through `bind` and `map`, and from one call to a
list of calls (`calls_related`).
-/

namespace Option.Rel

variable {α β γ δ : Type} {R : α → β → Prop} {S : γ → δ → Prop}

theorem bind {x : Option α} {y : Option β} {f : α → Option γ} {k : β → Option δ}
    (h : Option.Rel R x y) (hnext : ∀ a b, R a b → Option.Rel S (f a) (k b)) :
    Option.Rel S (x.bind f) (y.bind k) := by
  cases h with
  | none => exact Option.Rel.none
  | some hab => exact hnext _ _ hab

theorem map {x : Option α} {y : Option β} {f : α → γ} {k : β → δ} (h : Option.Rel R x y)
    (hnext : ∀ a b, R a b → S (f a) (k b)) : Option.Rel S (x.map f) (y.map k) := by
  cases h with
  | none => exact Option.Rel.none
  | some hab => exact Option.Rel.some (hnext _ _ hab)

theorem mono {R' : α → β → Prop} {x : Option α} {y : Option β} (h : Option.Rel R x y)
    (himp : ∀ a b, R a b → R' a b) : Option.Rel R' x y := by
  cases h with
  | none => exact Option.Rel.none
  | some hab => exact Option.Rel.some (himp _ _ hab)

/-- Related results that are functions of related results by equations. -/
theorem of_map_eq {x : Option α} {y : Option β} {f : α → γ} {k : β → γ}
    (h : x.map f = y.map k)
    (hR : ∀ a b, x = Option.some a → y = Option.some b → f a = k b → R a b) : Option.Rel R x y := by
  cases x with
  | none =>
    cases y with
    | none => exact Option.Rel.none
    | some b => cases h
  | some a =>
    cases y with
    | none => cases h
    | some b => exact Option.Rel.some (hR a b rfl rfl (Option.some.inj h))

end Option.Rel

namespace Related

variable {A S T O O' : Type}

/-- Calls one after another, each of which may stop the run: the answers in order
and the last state. -/
def calls (step : A → S → Option (O × S)) : List A → S → Option (List O × S)
  | [], s => some ([], s)
  | a :: as, s =>
    (step a s).bind fun r => (calls step as r.2).map fun rest => (r.1 :: rest.1, rest.2)

/-- What relates the answers of single calls relates those of a run. -/
theorem calls_related {step : A → S → Option (O × S)} {step' : A → T → Option (O' × T)}
    {Ok : A → Prop} {Sim : S → T → Prop} {Out : O → O' → Prop}
    (hstep : ∀ a s t, Ok a → Sim s t →
      Option.Rel (fun r r' => Out r.1 r'.1 ∧ Sim r.2 r'.2) (step a s) (step' a t)) :
    ∀ (as : List A) (s : S) (t : T), (∀ a ∈ as, Ok a) → Sim s t →
      Option.Rel (fun r r' => List.Forall₂ Out r.1 r'.1 ∧ Sim r.2 r'.2)
        (calls step as s) (calls step' as t)
  | [], _, _, _, hsim => Option.Rel.some ⟨List.Forall₂.nil, hsim⟩
  | a :: as, s, t, hok, hsim =>
    (hstep a s t (hok a List.mem_cons_self) hsim).bind fun r r' hr =>
      (calls_related hstep as r.2 r'.2 (fun x hx => hok x (List.mem_cons_of_mem _ hx)) hr.2).map
        fun _ _ hrest => ⟨List.Forall₂.cons hr.1 hrest.1, hrest.2⟩

end Related
