import Mathlib.Init

/-!
# Programs that may be stopped

A program is a sequence of operations on a device, each with an answer that the rest of the
program depends on, and it may throw. `run` executes it under a *schedule*: one mark for
each operation, which says whether the operation fails. Where the schedule ends before the
program does, the process has been stopped there. So the schedules of a program are exactly
its executions, with every choice of failing operations and of a stop between any two.

`Prog.Only P` says that a program calls only operations that meet `P`, whatever the answers;
what such operations leave alone, the program does (`runClean_frame`).

`Holds` is the weakest precondition of a program in a `Regime`: what operations do, what a
monitor remembers of them, which failures may occur, and an invariant that must hold wherever
the process may be stopped. Its rules take a program apart (`holds_bind`, `holds_attempt`),
and `Regime.Holds.run` carries it to every execution.
-/

namespace Interruptible

variable {Op : Type} {Ans : Op → Type} {ε ε' α β σ γ : Type}

/-! ## Programs -/

/-- A program over operations `Op` with answers `Ans`. -/
inductive Prog (Op : Type) (Ans : Op → Type) (ε α : Type) where
  | done (r : Except ε α)
  | call (o : Op) (next : Ans o → Prog Op Ans ε α)

namespace Prog

/-- One program after the other; an error ends both. -/
def bind : Prog Op Ans ε α → (α → Prog Op Ans ε β) → Prog Op Ans ε β
  | done (.ok a), f => f a
  | done (.error e), _ => done (.error e)
  | call o next, f => call o fun x => (next x).bind f

instance : Monad (Prog Op Ans ε) where
  pure a := done (.ok a)
  bind := bind

/-- Stop with an error. -/
def throw (e : ε) : Prog Op Ans ε α := done (.error e)

/-- A single operation. -/
def op (o : Op) : Prog Op Ans ε (Ans o) := call o fun x => done (.ok x)

/-- Run a program and take its outcome as a value, as `do … catch` and `try?` do. -/
def attempt : Prog Op Ans ε α → Prog Op Ans ε' (Except ε α)
  | done r => done (.ok r)
  | call o next => call o fun x => (next x).attempt

/-- Run a program only if `c` holds. -/
def when (c : Bool) (p : Prog Op Ans ε Unit) : Prog Op Ans ε Unit := if c then p else pure ()

/-- A program that has a second device beside its own. -/
def inr {Op' : Type} {Ans' : Op' → Type} :
    Prog Op Ans ε α → Prog (Op' ⊕ Op) (Sum.elim Ans' Ans) ε α
  | done r => done r
  | call o next => call (.inr o) fun x => (next x).inr

end Prog

/-! ## Executions -/

/-- How an execution ended: `outcome` is `none` if the process was stopped; `trace` holds the
operations that were executed, with the mark of those that failed. -/
structure Ending (Op ε α σ : Type) where
  outcome : Option (Except ε α)
  state : σ
  trace : List (Op × Bool)

/-- The execution of a program under a schedule. -/
def run (act : (o : Op) → Bool → σ → Ans o × σ) :
    Prog Op Ans ε α → List Bool → σ → Ending Op ε α σ
  | .done r, _, s => ⟨some r, s, []⟩
  | .call _ _, [], s => ⟨none, s, []⟩
  | .call o next, f :: fs, s =>
    let e := run act (next (act o f s).1) fs (act o f s).2
    ⟨e.outcome, e.state, (o, f) :: e.trace⟩

/-- The execution in which nothing fails and the process is not stopped. -/
def runClean (act : (o : Op) → Bool → σ → Ans o × σ) :
    Prog Op Ans ε α → σ → Except ε α × σ
  | .done r, s => (r, s)
  | .call o next, s => runClean act (next (act o false s).1) (act o false s).2

/-! ## Executions without faults -/

section Clean

variable {act : (o : Op) → Bool → σ → Ans o × σ} {s s' : σ}

theorem runClean_bind_ok {p : Prog Op Ans ε α} {f : α → Prog Op Ans ε β} {a : α}
    (h : runClean act p s = (.ok a, s')) : runClean act (p >>= f) s = runClean act (f a) s' := by
  show runClean act (p.bind f) s = _
  induction p generalizing s with
  | done r =>
    cases h
    rfl
  | call o next ih => exact ih _ h

theorem runClean_bind_error {p : Prog Op Ans ε α} {f : α → Prog Op Ans ε β} {e : ε}
    (h : runClean act p s = (.error e, s')) : runClean act (p >>= f) s = (.error e, s') := by
  show runClean act (p.bind f) s = _
  induction p generalizing s with
  | done r =>
    cases h
    rfl
  | call o next ih => exact ih _ h

end Clean

/-! ## What a program may call -/

/-- Every operation that the program may call meets `P`. -/
def Prog.Only (P : Op → Prop) : Prog Op Ans ε α → Prop
  | .done _ => True
  | .call o next => P o ∧ ∀ x, (next x).Only P

namespace Prog.Only

variable {P P' : Op → Prop} {p : Prog Op Ans ε α}

theorem pure (a : α) : (Pure.pure a : Prog Op Ans ε α).Only P := trivial

theorem throw (e : ε) : (Prog.throw e : Prog Op Ans ε α).Only P := trivial

theorem op {o : Op} (h : P o) : (Prog.op o : Prog Op Ans ε (Ans o)).Only P :=
  ⟨h, fun _ => trivial⟩

theorem mono (hP : ∀ o, P o → P' o) (h : p.Only P) : p.Only P' := by
  induction p with
  | done r => trivial
  | call o next ih => exact ⟨hP o h.1, fun x => ih x (h.2 x)⟩

theorem bind {f : α → Prog Op Ans ε β} (h : p.Only P) (hf : ∀ a, (f a).Only P) :
    (p >>= f).Only P := by
  show (p.bind f).Only P
  induction p with
  | done r =>
    cases r with
    | ok a => exact hf a
    | error e => trivial
  | call o next ih => exact ⟨h.1, fun x => ih x (h.2 x)⟩

theorem attempt (h : p.Only P) : (p.attempt : Prog Op Ans ε' (Except ε α)).Only P := by
  induction p with
  | done r => trivial
  | call o next ih => exact ⟨h.1, fun x => ih x (h.2 x)⟩

theorem when {c : Bool} {p : Prog Op Ans ε Unit} (h : p.Only P) : (Prog.when c p).Only P := by
  cases c with
  | true => exact h
  | false => trivial

/-- Beside its own device, a program calls nothing. -/
theorem inr {Op' : Type} {Ans' : Op' → Type} (p : Prog Op Ans ε α) :
    (Prog.inr p : Prog (Op' ⊕ Op) (Sum.elim Ans' Ans) ε α).Only fun o => o.isRight := by
  induction p with
  | done r => trivial
  | call o next ih => exact ⟨rfl, ih⟩

/-- What none of the operations changes, an execution does not change. -/
theorem runClean_frame {τ : Type} (h : p.Only P) (act : (o : Op) → Bool → σ → Ans o × σ)
    (view : σ → τ) (hact : ∀ o s, P o → view (act o false s).2 = view s) (s : σ) :
    view (runClean act p s).2 = view s := by
  induction p generalizing s with
  | done r => rfl
  | call o next ih => exact (ih _ (h.2 _) _).trans (hact o s h.1)

/-- What every such operation keeps, an execution keeps. -/
theorem run_keeps {act : (o : Op) → Bool → σ → Ans o × σ} {Inv : σ → Prop} (h : p.Only P)
    (hact : ∀ o f s, P o → Inv s → Inv (act o f s).2) (fs : List Bool) {s : σ} (hs : Inv s) :
    Inv (run act p fs s).state := by
  induction p generalizing fs s with
  | done r => exact hs
  | call o next ih =>
    cases fs with
    | nil => exact hs
    | cons f fs => exact ih _ (h.2 _) fs (hact o f s h.1 hs)

end Prog.Only

/-- An execution without faults that was not stopped is the clean one. -/
theorem runClean_of_run {act : (o : Op) → Bool → σ → Ans o × σ} {p : Prog Op Ans ε α} {n : Nat}
    {s : σ} {r : Except ε α} (h : (run act p (List.replicate n false) s).outcome = some r) :
    runClean act p s = (r, (run act p (List.replicate n false) s).state) := by
  induction p generalizing n s with
  | done r' =>
    cases h
    rfl
  | call o next ih =>
    cases n with
    | zero => cases h
    | succ n => exact ih _ h

/-! ## Regimes -/

/-- What the operations do, what a monitor remembers of them, which of them may fail, and
what must hold wherever the process may be stopped. -/
structure Regime (Op : Type) (Ans : Op → Type) (σ γ : Type) where
  act : (o : Op) → Bool → σ → Ans o × σ
  mon : γ → Op → Bool → γ
  may : γ → Op → Bool → Prop
  inv : γ → σ → Prop

namespace Regime

variable (R : Regime Op Ans σ γ)

/-- What the monitor remembers after a trace. -/
def monitor (g : γ) (trace : List (Op × Bool)) : γ :=
  trace.foldl (fun g e => R.mon g e.1 e.2) g

/-- Every failure in the trace is one that may occur. -/
def Allowed : γ → List (Op × Bool) → Prop
  | _, [] => True
  | g, (o, f) :: trace => R.may g o f ∧ Allowed (R.mon g o f) trace

/-- From `g` and `s`, the invariant holds before every operation, and `Q` at the end. -/
def Holds (Q : Except ε α → γ → σ → Prop) : Prog Op Ans ε α → γ → σ → Prop
  | .done r, g, s => Q r g s
  | .call o next, g, s =>
    R.inv g s ∧ ∀ f, R.may g o f → Holds Q (next (R.act o f s).1) (R.mon g o f) (R.act o f s).2

end Regime

open Regime

/-! ## Rules -/

section Rules

variable {R : Regime Op Ans σ γ} {Q Q' : Except ε α → γ → σ → Prop} {g : γ} {s : σ}

@[simp] theorem holds_pure (a : α) :
    R.Holds Q (pure a : Prog Op Ans ε α) g s ↔ Q (.ok a) g s := Iff.rfl

@[simp] theorem holds_throw (e : ε) :
    R.Holds Q (Prog.throw e : Prog Op Ans ε α) g s ↔ Q (.error e) g s := Iff.rfl

/-- A weaker postcondition. -/
theorem Regime.Holds.mono : ∀ {p : Prog Op Ans ε α} {g : γ} {s : σ}, R.Holds Q p g s →
    (∀ {r g s}, Q r g s → Q' r g s) → R.Holds Q' p g s
  | .done _, _, _, h, hQ => hQ h
  | .call _ _, _, _, h, hQ => ⟨h.1, fun f hf => Holds.mono (h.2 f hf) hQ⟩

/-- A program and what follows it. -/
theorem holds_bind {p : Prog Op Ans ε α} {f : α → Prog Op Ans ε β}
    {Q : Except ε β → γ → σ → Prop} :
    R.Holds Q (p >>= f) g s ↔
      R.Holds (fun r g s =>
        match r with
        | .ok a => R.Holds Q (f a) g s
        | .error e => Q (.error e) g s) p g s := by
  show R.Holds Q (p.bind f) g s ↔ _
  induction p generalizing g s with
  | done r =>
    cases r with
    | ok a => exact Iff.rfl
    | error e => exact Iff.rfl
  | call o next ih =>
    exact and_congr_right fun _ => forall_congr' fun m => imp_congr_right fun _ => ih _

/-- What a program ensures is what the program after it may rely on. -/
theorem Regime.Holds.bind {p : Prog Op Ans ε α} {f : α → Prog Op Ans ε β}
    {Q' : Except ε β → γ → σ → Prop} (h : R.Holds Q p g s)
    (hok : ∀ {a g s}, Q (.ok a) g s → R.Holds Q' (f a) g s)
    (herror : ∀ {e g s}, Q (.error e) g s → Q' (.error e) g s) : R.Holds Q' (p >>= f) g s := by
  refine holds_bind.mpr (h.mono fun {r g s} hr => ?_)
  cases r with
  | ok a => exact hok hr
  | error e => exact herror hr

/-- A program whose errors are caught. -/
theorem holds_attempt {p : Prog Op Ans ε α} {Q : Except ε' (Except ε α) → γ → σ → Prop} :
    R.Holds Q (p.attempt : Prog Op Ans ε' (Except ε α)) g s ↔
      R.Holds (fun r g s => Q (.ok r) g s) p g s := by
  induction p generalizing g s with
  | done r => exact Iff.rfl
  | call o next ih =>
    exact and_congr_right fun _ => forall_congr' fun m => imp_congr_right fun _ => ih _

/-- Every execution with allowed failures: the invariant where it is stopped, the
postcondition where it ends. -/
theorem Regime.Holds.run {p : Prog Op Ans ε α} (h : R.Holds Q p g s) (fs : List Bool)
    (hallowed : R.Allowed g (run R.act p fs s).trace) :
    match (run R.act p fs s).outcome with
    | none => R.inv (R.monitor g (run R.act p fs s).trace) (run R.act p fs s).state
    | some r => Q r (R.monitor g (run R.act p fs s).trace) (run R.act p fs s).state := by
  induction p generalizing g s fs with
  | done r => exact h
  | call o next ih =>
    cases fs with
    | nil => exact h.1
    | cons f fs => exact ih _ (h.2 f hallowed.1) fs hallowed.2

/-- An invariant that every operation of a program keeps holds at its end. -/
theorem Prog.Only.holds {P : Op → Prop} {p : Prog Op Ans ε α} (h : p.Only P)
    (hkeep : ∀ {o f g s}, P o → R.may g o f → R.inv g s → R.inv (R.mon g o f) (R.act o f s).2)
    (hinv : R.inv g s) : R.Holds (fun _ => R.inv) p g s := by
  induction p generalizing g s with
  | done r => exact hinv
  | call o next ih => exact ⟨hinv, fun f hf => ih _ (h.2 _) (hkeep h.1 hf hinv)⟩

/-- An execution without faults, up to where it is stopped, is always allowed. -/
theorem Regime.allowed_replicate (hmay : ∀ g o, R.may g o false) (p : Prog Op Ans ε α) (n : Nat)
    (g : γ) (s : σ) : R.Allowed g (Interruptible.run R.act p (List.replicate n false) s).trace := by
  induction p generalizing n g s with
  | done r => trivial
  | call o next ih =>
    cases n with
    | zero => trivial
    | succ n => exact ⟨hmay g o, ih _ n _ _⟩

/-- The execution without faults, in a regime that does not ask for one. -/
theorem Regime.Holds.runClean {p : Prog Op Ans ε α} (h : R.Holds Q p g s)
    (hmay : ∀ g o, R.may g o false) :
    ∃ g', Q (runClean R.act p s).1 g' (runClean R.act p s).2 := by
  induction p generalizing g s with
  | done r => exact ⟨g, h⟩
  | call o next ih => exact ih _ (h.2 false (hmay g o))

end Rules

end Interruptible
