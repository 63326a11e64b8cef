import Mathlib.Data.Rat.Denumerable
import Mathlib.Tactic.Linarith
import Mathlib.Tactic.NormNum
import Pizzini.Lib.Decimal
import Pizzini.Lib.Runs
import Pizzini.App.LockManager

/-!
# Guessing the passcode (LockManager.swift:350–407)

Any sequence of `submitPasscode` calls, each of which the process may stop before any of its
calls on the device, with the next process after it. `failures` records the dates of the calls
since the last match that verified their entry and answered `.wrong`.

The persisted state is never behind: it counts a call before the call answers, and no call
but a match lets it forget (`Counted`). So the policy's three thresholds bound what is
answered (`guessing_bounded`).
-/

namespace Pizzini.App

open Wire Interruptible

variable {κ δ : Type}

/-! ## Runs -/

/-- The passcode's rows, the lockout's row, and `Date()`. -/
structure Phone (κ δ : Type) where
  device : Device κ δ
  lockoutRow : Option Bytes
  clock : ℚ

namespace LockManager

variable [DecidableEq κ] [Inhabited δ]

/-- What a call does; `fails` marks one that fails. -/
def act : (o : LockoutOp ⊕ Op κ) → (fails : Bool) → Phone κ δ →
    Sum.elim LockoutOp.Answer Ans o × Phone κ δ
  | .inl .date, _, p => (p.clock, p)
  | .inl .read, fails, p => (if fails then none else p.lockoutRow, p)
  | .inl (.write data), fails, p =>
    if fails then (false, p) else (true, { p with lockoutRow := some data })
  | .inr o, fails, p =>
    ((p.device.act o fails).1, { p with device := (p.device.act o fails).2 })

/-- A run of `submitPasscode`. -/
abbrev Submission (κ δ : Type) :=
  Ending (LockoutOp ⊕ Op κ) BootError (PasscodeOutcome × LockManager) (Phone κ δ)

/-- An entry submitted at `now`, of whose calls on the device at most `executed` are executed.
No call on the device fails. -/
def submission (env : LockEnv) (p : Phone κ δ) (m : LockManager) (now : ℚ) (entry : String)
    (executed : Nat) : Submission κ δ :=
  run act (m.submitPasscode env entry) (List.replicate executed false) { p with clock := now }

/-- What the call answers, if the process is not stopped before. -/
def Submission.answer (e : Submission κ δ) : Option PasscodeOutcome :=
  match e.outcome with
  | some (.ok (outcome, _)) => some outcome
  | _ => none

/-- The verification was begun: a row of the passcode was asked for. -/
def Submission.verifying (e : Submission κ δ) : Bool := e.trace.any fun called => called.1.isRight

/-- The phone, and the process that runs on it. -/
structure Guessing (κ δ : Type) where
  phone : Phone κ δ
  /-- none between two processes -/
  manager : Option LockManager
  /-- when the calls since the last match were submitted that verified and answered `.wrong` -/
  failures : List ℚ

/-- What happens. -/
inductive Guess (κ δ : Type) where
  | submit (now : ℚ) (entry : String) (executed : Nat)
  /-- the next process; start-up may migrate the passcode's rows, and the user may change them -/
  | relaunch (isLockGateActive : Bool) (device : Device κ δ)

/-- The failures after a call. -/
def Submission.failuresAfter (e : Submission κ δ) (now : ℚ) (failures : List ℚ) : List ℚ :=
  match e.answer with
  | some .unlocked | some .duress => []
  | some .wrong => if e.verifying then failures ++ [now] else failures
  | _ => failures

/-- One step. -/
def Guessing.step (env : LockEnv) (w : Guessing κ δ) : Guess κ δ → Guessing κ δ
  | .relaunch isLockGateActive device =>
    { w with
      phone := { w.phone with device := device }
      manager := some (launch isLockGateActive) }
  | .submit now entry executed =>
    match w.manager with
    | none => w
    | some m =>
      let e := submission env w.phone m now entry executed
      { phone := e.state
        manager :=
          match e.outcome with
          | some (.ok (_, m')) => some m'
          | _ => none
        failures := e.failuresAfter now w.failures }

/-- The clock does not go back. -/
def Forward (w : Guessing κ δ) : Guess κ δ → Prop
  | .submit now _ _ => w.phone.clock ≤ now
  | .relaunch _ _ => True

/-! ## The policy -/

open PasscodeLockoutPolicy

/-- An attempt that is allowed is not above the ceiling, and above the grace the delay is over. -/
theorem decision_eq_allow {p : PasscodeLockoutPolicy} {attempts : Int} {lastFailedAt : Option ℚ}
    {now : ℚ} (h : p.decision attempts lastFailedAt now = .allow) :
    attempts ≤ p.hardCeiling ∧ ∀ last, lastFailedAt = some last → p.graceAttempts < attempts →
      last + p.delay attempts ≤ now := by
  unfold decision at h
  split at h
  · cases h
  next hceiling =>
    refine ⟨Int.not_lt.mp hceiling, ?_⟩
    rintro last rfl hgrace
    rw [if_neg (Int.not_le.mpr hgrace)] at h
    by_contra hearly
    simp only [if_pos (lt_of_not_ge hearly)] at h
    cases h

/-- The delay grows with the number of failures, up to the cap. -/
theorem le_delay {n attempts : Int} (hle : n ≤ attempts) :
    min (2 ^ (n - production.graceAttempts - 1).toNat) 60 ≤ production.delay attempts := by
  have hcap : (60 : ℚ) ≤ 2 ^ 40 := by norm_num
  show min _ 60 ≤ min (1 * 2 ^ (min (attempts - 5 - 1) 40).toNat) 60
  rw [one_mul]
  refine le_min ?_ (min_le_right _ _)
  rcases Int.le_total (attempts - 5 - 1) 40 with hsmall | hlarge
  · rw [Int.min_eq_left hsmall]
    refine (min_le_left _ _).trans (pow_le_pow_right₀ (by norm_num) ?_)
    exact Int.toNat_le_toNat (by show n - 5 - 1 ≤ _; omega)
  · rw [Int.min_eq_right hlarge]
    exact (min_le_right _ _).trans hcap

/-! ## One call -/

/-- The decision about an attempt at `now`, with `row` in the Keychain. -/
def verdict (codec : LockoutCodec) (row : Option Bytes) (now : ℚ) : LockoutDecision :=
  production.decision (PasscodeLockoutStore.decoded codec row).attempts
    (PasscodeLockoutStore.decoded codec row).lastFailedAt now

/-- Executions at `now` in which no call on the device fails. The monitor remembers whether the
verification was begun; up to the write, `row` is in the Keychain. -/
def guess (codec : LockoutCodec) (row : Option Bytes) (now : ℚ) :
    Regime (LockoutOp ⊕ Op κ) (Sum.elim LockoutOp.Answer Ans) (Phone κ δ) Bool where
  act := act
  mon verifying o _ := verifying || o.isRight
  may _ _ fails := fails = false
  inv verifying p :=
    p.clock = now ∧ p.lockoutRow = row ∧ (verifying = true → verdict codec row now = .allow)

/-- The row that holds a state. -/
def Holding (codec : LockoutCodec) (p : Phone κ δ) (state : LockoutState) : Prop :=
  ∃ data, codec.encode state = some data ∧ p.lockoutRow = some data

/-- What is written with an answer, and what decided about it. -/
def Written (codec : LockoutCodec) (row : Option Bytes) (now : ℚ) (p : Phone κ δ)
    (verifying : Bool) : PasscodeOutcome → Prop
  | .permanentlyLocked =>
    verdict codec row now = .permanentlyLocked ∧ p.lockoutRow = row ∧ verifying = false
  | .lockedOut retryAt =>
    verdict codec row now = .blocked retryAt ∧ p.lockoutRow = row ∧ verifying = false
  | .unlocked | .duress => verdict codec row now = .allow ∧ Holding codec p .empty
  | .wrong => verdict codec row now = .allow ∧
      Holding codec p ⟨(PasscodeLockoutStore.decoded codec row).attempts + 1, some now⟩

/-- What a call leaves. -/
def Answered (codec : LockoutCodec) (row : Option Bytes) (now : ℚ) :
    Except BootError (PasscodeOutcome × LockManager) → Bool → Phone κ δ → Prop
  | .ok (outcome, m), verifying, p => p.clock = now ∧ m.wipeInFlight = false ∧
      Written codec row now p verifying outcome
  | .error _, verifying, p => (guess codec row now).inv verifying p ∧ verdict codec row now = .allow

variable {env : LockEnv} {m : LockManager} {p : Phone κ δ} {row : Option Bytes} {now : ℚ}

/-- What is saved is in the row. -/
theorem guess_save {codec : LockoutCodec} (hcodec : codec.RoundTrips) {state : LockoutState}
    {verifying : Bool} {Q : Except BootError Bool → Bool → Phone κ δ → Prop}
    (hinv : (guess codec row now).inv verifying p)
    (hQ : ∀ data, codec.encode state = some data →
      Q (.ok true) verifying { p with lockoutRow := some data }) :
    (guess codec row now).Holds Q (PasscodeLockoutStore.save codec state) verifying p := by
  obtain ⟨data, hencode, -⟩ := hcodec state
  rw [PasscodeLockoutStore.save, hencode]
  refine ⟨hinv, ?_⟩
  rintro f (rfl : f = false)
  show Q (.ok true) (verifying || false) _
  rw [Bool.or_false]
  exact hQ data hencode

/-- The decision, the verification, and what is saved after it. -/
theorem guess_submitPasscode (hcodec : env.lockout.RoundTrips) (hidle : m.wipeInFlight = false)
    (p : Phone κ δ) (entry : String) :
    (guess env.lockout p.lockoutRow p.clock).Holds (Answered env.lockout p.lockoutRow p.clock)
      (m.submitPasscode env entry) false p := by
  have hbefore : (guess env.lockout p.lockoutRow p.clock).inv false p := ⟨rfl, rfl, nofun⟩
  rw [submitPasscode, if_neg (by simp [hidle])]
  refine holds_bind.mpr ⟨hbefore, ?_⟩
  rintro f (rfl : f = false)
  refine holds_bind.mpr (holds_bind.mpr ⟨hbefore, ?_⟩)
  rintro f (rfl : f = false)
  show (guess env.lockout p.lockoutRow p.clock).Holds
    (Answered env.lockout p.lockoutRow p.clock) _ false p
  split
  next hverdict => exact ⟨rfl, hidle, hverdict, rfl, rfl⟩
  next retryAt hverdict => exact ⟨rfl, hidle, hverdict, rfl, rfl⟩
  next hverdict =>
    -- the verification leaves the clock and the row alone
    refine ((Prog.Only.inr (AppPasscode.check env.passcode entry)).holds ?_ hbefore).bind
      (fun {found verifying p'} hinv => ?_) fun {_ _ _} hinv => ⟨hinv, hverdict⟩
    · rintro o f verifying p' ho - ⟨hclock, hrow, -⟩
      cases o with
      | inl o => cases ho
      | inr o => exact ⟨hclock, hrow, fun _ => hverdict⟩
    · show (guess env.lockout p.lockoutRow p.clock).Holds _
        (PasscodeLockoutStore.save env.lockout (nextState found
          (PasscodeLockoutStore.decoded env.lockout p.lockoutRow) p.clock) >>= _) verifying p'
      refine holds_bind.mpr (guess_save hcodec hinv fun data hencode => ?_)
      cases found with
      | real => exact ⟨hinv.1, hidle, hverdict, data, hencode, rfl⟩
      | duress => exact ⟨hinv.1, hidle, hverdict, data, hencode, rfl⟩
      | neither => exact ⟨hinv.1, hidle, hverdict, data, hencode, rfl⟩

theorem monitor_eq {codec : LockoutCodec} (verifying : Bool)
    (trace : List ((LockoutOp ⊕ Op κ) × Bool)) :
    (guess codec row now : Regime _ _ (Phone κ δ) _).monitor verifying trace =
      (verifying || trace.any fun called => called.1.isRight) := by
  induction trace generalizing verifying with
  | nil => exact (Bool.or_false _).symm
  | cons called trace ih =>
    rw [List.any_cons, ← Bool.or_assoc]
    exact ih _

/-- Where a call may be stopped, and what it leaves. -/
theorem submission_spec (hcodec : env.lockout.RoundTrips) (hidle : m.wipeInFlight = false)
    (p : Phone κ δ) (now : ℚ) (entry : String) (executed : Nat) :
    match (submission env p m now entry executed).outcome with
    | none => (guess env.lockout p.lockoutRow now).inv
        (submission env p m now entry executed).verifying (submission env p m now entry executed).state
    | some r => Answered env.lockout p.lockoutRow now r
        (submission env p m now entry executed).verifying
        (submission env p m now entry executed).state := by
  have hholds : (guess env.lockout p.lockoutRow now).Holds (Answered env.lockout p.lockoutRow now)
      (m.submitPasscode env entry) false { p with clock := now } :=
    guess_submitPasscode hcodec hidle { p with clock := now } entry
  have hspec := hholds.run (List.replicate executed false)
    (Regime.allowed_replicate (fun _ _ => rfl) _ _ _ _)
  rw [monitor_eq, Bool.false_or] at hspec
  have hact : (guess env.lockout p.lockoutRow now : Regime _ _ (Phone κ δ) _).act = act := rfl
  rw [hact] at hspec
  unfold submission
  generalize run act (m.submitPasscode env entry) (List.replicate executed false)
    { p with clock := now } = e at hspec
  obtain ⟨outcome, state, trace⟩ := e
  cases outcome with
  | none => exact hspec
  | some r => exact hspec

/-! ## The count -/

/-- The persisted state is not behind. -/
structure Counted (env : LockEnv) (w : Guessing κ δ) : Prop where
  counted : w.failures.length ≤ (PasscodeLockoutStore.decoded env.lockout w.phone.lockoutRow).attempts
  ceiling : (PasscodeLockoutStore.decoded env.lockout w.phone.lockoutRow).attempts ≤
    production.hardCeiling + 1
  past : ∀ t ∈ w.failures, t ≤ w.phone.clock
  latest : ∀ t ∈ w.failures, ∃ last,
    (PasscodeLockoutStore.decoded env.lockout w.phone.lockoutRow).lastFailedAt = some last ∧ t ≤ last
  idle : ∀ m, w.manager = some m → m.wipeInFlight = false

omit [DecidableEq κ] [Inhabited δ] in
/-- The state that a row holds. -/
theorem Holding.decoded {codec : LockoutCodec} (hcodec : codec.RoundTrips) {state : LockoutState}
    (h : Holding codec p state) : PasscodeLockoutStore.decoded codec p.lockoutRow = state := by
  obtain ⟨data, hencode, hrow⟩ := h
  obtain ⟨data', hencode', hdecode⟩ := hcodec state
  obtain rfl := Option.some.inj (hencode.symm.trans hencode')
  rw [hrow]
  show (codec.decode data).getD _ = _
  rw [hdecode, Option.getD_some]

variable {w : Guessing κ δ}

omit [DecidableEq κ] [Inhabited δ] in
/-- Nothing is forgotten where the row and the failures stay. -/
theorem Counted.same {w' : Guessing κ δ} (h : Counted env w)
    (hrow : w'.phone.lockoutRow = w.phone.lockoutRow) (hclock : w.phone.clock ≤ w'.phone.clock)
    (hfailures : w'.failures = w.failures)
    (hidle : ∀ m, w'.manager = some m → m.wipeInFlight = false) : Counted env w' := by
  constructor
  · rw [hfailures, hrow]
    exact h.counted
  · rw [hrow]
    exact h.ceiling
  · rw [hfailures]
    exact fun t ht => (h.past t ht).trans hclock
  · rw [hfailures, hrow]
    exact h.latest
  · exact hidle

omit [DecidableEq κ] [Inhabited δ] in
/-- A match forgets everything. -/
theorem Counted.of_match (hcodec : env.lockout.RoundTrips)
    (hrow : Holding env.lockout w.phone .empty) (hfailures : w.failures = [])
    (hidle : ∀ m, w.manager = some m → m.wipeInFlight = false) : Counted env w := by
  constructor
  · rw [hfailures, hrow.decoded hcodec]
    exact Int.le_refl 0
  · rw [hrow.decoded hcodec]
    decide
  · rw [hfailures]
    nofun
  · rw [hfailures]
    nofun
  · exact hidle

omit [DecidableEq κ] [Inhabited δ] in
/-- A failure is counted. -/
theorem Counted.failed {w' : Guessing κ δ} (h : Counted env w) (hcodec : env.lockout.RoundTrips)
    (hnow : w.phone.clock ≤ now) (hallow : verdict env.lockout w.phone.lockoutRow now = .allow)
    (hrow : Holding env.lockout w'.phone
      ⟨(PasscodeLockoutStore.decoded env.lockout w.phone.lockoutRow).attempts + 1, some now⟩)
    (hclock : w'.phone.clock = now)
    (hfailures : w'.failures = w.failures ∨ w'.failures = w.failures ++ [now])
    (hidle : ∀ m, w'.manager = some m → m.wipeInFlight = false) : Counted env w' := by
  have hpast : ∀ t ∈ w'.failures, t ≤ now := by
    intro t ht
    have hold : ∀ t ∈ w.failures, t ≤ now := fun t ht => (h.past t ht).trans hnow
    rcases hfailures with heq | heq
    · exact hold t (heq ▸ ht)
    · rcases List.mem_append.mp (heq ▸ ht) with ht | ht
      · exact hold t ht
      · exact (List.mem_singleton.mp ht).le
  constructor
  · rw [hrow.decoded hcodec]
    have hcounted := h.counted
    rcases hfailures with heq | heq
    · rw [heq]
      exact hcounted.trans (Int.le_add_one (Int.le_refl _))
    · rw [heq, List.length_append]
      exact Int.add_le_add_right hcounted 1
  · rw [hrow.decoded hcodec]
    exact Int.add_le_add_right (decision_eq_allow hallow).1 1
  · rw [hclock]
    exact hpast
  · rw [hrow.decoded hcodec]
    exact fun t ht => ⟨now, rfl, hpast t ht⟩
  · exact hidle

/-- Every step keeps the count. -/
theorem Counted.step (h : Counted env w) (hcodec : env.lockout.RoundTrips) {e : Guess κ δ}
    (hforward : Forward w e) : Counted env (w.step env e) := by
  cases e with
  | relaunch gate device =>
    refine h.same rfl (le_refl _) rfl fun m hm => ?_
    cases hm
    rfl
  | submit now entry executed =>
    cases hm : w.manager with
    | none =>
      rw [show w.step env (.submit now entry executed) = w by simp only [Guessing.step, hm]]
      exact h
    | some m =>
      have hspec := submission_spec hcodec (h.idle m hm) w.phone now entry executed
      have hstep : w.step env (.submit now entry executed) =
          ⟨(submission env w.phone m now entry executed).state,
            match (submission env w.phone m now entry executed).outcome with
            | some (.ok (_, m')) => some m'
            | _ => none,
            (submission env w.phone m now entry executed).failuresAfter now w.failures⟩ := by
        simp only [Guessing.step, hm]
      rw [hstep]
      generalize submission env w.phone m now entry executed = e at hspec
      obtain ⟨outcome, state, trace⟩ := e
      cases outcome with
      | none => exact h.same hspec.2.1 (hspec.1 ▸ hforward) rfl nofun
      | some r =>
        cases r with
        | error => exact h.same hspec.1.2.1 (hspec.1.1 ▸ hforward) rfl nofun
        | ok answer =>
          obtain ⟨outcome, m'⟩ := answer
          obtain ⟨hclock, hidle, hwritten⟩ := hspec
          have hidle' : ∀ m'', some m' = some m'' → m''.wipeInFlight = false := by
            rintro _ ⟨⟩
            exact hidle
          cases outcome with
          | permanentlyLocked => exact h.same hwritten.2.1 (hclock ▸ hforward) rfl hidle'
          | lockedOut => exact h.same hwritten.2.1 (hclock ▸ hforward) rfl hidle'
          | unlocked => exact .of_match hcodec hwritten.2 rfl hidle'
          | duress => exact .of_match hcodec hwritten.2 rfl hidle'
          | wrong =>
            refine h.failed hcodec hforward hwritten.1 hwritten.2 hclock ?_ hidle'
            show (if _ then _ else _) = _ ∨ (if _ then _ else _) = _
            split
            · exact .inr rfl
            · exact .inl rfl

/-- A call at the ceiling. -/
theorem Counted.locked (h : Counted env w) (hcodec : env.lockout.RoundTrips)
    (hfull : (w.failures.length : Int) = production.hardCeiling + 1) (hm : w.manager = some m)
    (now : ℚ) (entry : String) (executed : Nat) :
    (submission env w.phone m now entry executed).outcome = none ∨
      (submission env w.phone m now entry executed).answer = some .permanentlyLocked := by
  have hlocked : verdict env.lockout w.phone.lockoutRow now = .permanentlyLocked := by
    have hcounted := h.counted
    rw [hfull] at hcounted
    exact if_pos (Int.lt_iff_add_one_le.mpr hcounted)
  have hallow : verdict env.lockout w.phone.lockoutRow now ≠ .allow := by
    rw [hlocked]
    nofun
  have hspec := submission_spec hcodec (h.idle m hm) w.phone now entry executed
  generalize submission env w.phone m now entry executed = e at hspec
  obtain ⟨outcome, state, trace⟩ := e
  cases outcome with
  | none => exact .inl rfl
  | some r =>
    cases r with
    | error => exact absurd hspec.2 hallow
    | ok answer =>
      obtain ⟨outcome, m'⟩ := answer
      have hwritten := hspec.2.2
      cases outcome with
      | permanentlyLocked => exact .inr rfl
      | lockedOut => exact nomatch hlocked.symm.trans hwritten.1
      | _ => exact absurd hwritten.1 hallow

/-- At the ceiling, no step changes the failures. -/
theorem Counted.locked_step (h : Counted env w) (hcodec : env.lockout.RoundTrips)
    (hfull : (w.failures.length : Int) = production.hardCeiling + 1) (e : Guess κ δ) :
    (w.step env e).failures = w.failures := by
  cases e with
  | relaunch => rfl
  | submit now entry executed =>
    cases hm : w.manager with
    | none => simp only [Guessing.step, hm]
    | some m =>
      simp only [Guessing.step, hm]
      rcases h.locked hcodec hfull hm now entry executed with hstopped | hlocked
      · simp only [Submission.failuresAfter, Submission.answer, hstopped]
      · simp only [Submission.failuresAfter, hlocked]

/-- A call that verifies was allowed to. -/
theorem verdict_of_verifying (hcodec : env.lockout.RoundTrips) (hidle : m.wipeInFlight = false)
    {p : Phone κ δ} {entry : String} {executed : Nat}
    (hverifying : (submission env p m now entry executed).verifying = true) :
    verdict env.lockout p.lockoutRow now = .allow := by
  have hspec := submission_spec hcodec hidle p now entry executed
  generalize submission env p m now entry executed = e at hspec hverifying
  obtain ⟨outcome, state, trace⟩ := e
  cases outcome with
  | none => exact hspec.2.2 hverifying
  | some r =>
    cases r with
    | error => exact hspec.2
    | ok answer =>
      obtain ⟨outcome, m'⟩ := answer
      have hwritten := hspec.2.2
      cases outcome with
      | permanentlyLocked => exact nomatch hverifying.symm.trans hwritten.2.2
      | lockedOut => exact nomatch hverifying.symm.trans hwritten.2.2
      | _ => exact hwritten.1

/-- A match leaves the empty state. -/
theorem holding_of_match (hcodec : env.lockout.RoundTrips) {p : Phone κ δ} {entry : String}
    {executed : Nat}
    (hanswer : (submission env p m now entry executed).answer = some .unlocked ∨
      (submission env p m now entry executed).answer = some .duress) :
    Holding env.lockout (submission env p m now entry executed).state .empty := by
  cases hwipe : m.wipeInFlight with
  | true =>
    have hwrong : (submission env p m now entry executed).answer = some .wrong := by
      rw [submission, submitPasscode, if_pos hwipe]
      rfl
    rcases hanswer with h | h <;> exact nomatch hwrong.symm.trans h
  | false =>
    have hspec := submission_spec hcodec hwipe p now entry executed
    generalize submission env p m now entry executed = e at hspec hanswer
    obtain ⟨outcome, state, trace⟩ := e
    cases outcome with
    | none => rcases hanswer with h | h <;> cases h
    | some r =>
      cases r with
      | error => rcases hanswer with h | h <;> cases h
      | ok answer =>
        obtain ⟨outcome, m'⟩ := answer
        have hwritten := hspec.2.2
        rcases hanswer with h | h
        · cases h
          exact hwritten.2
        · cases h
          exact hwritten.2

/-! ## All runs -/

/-- What may be answered after a run. -/
structure Bounded (env : LockEnv) (w : Guessing κ δ) : Prop where
  /-- since the last match, no more calls than the ceiling and one answered `.wrong` -/
  atMost : (w.failures.length : Int) ≤ production.hardCeiling + 1
  /-- then, whatever comes after, a call answers `.permanentlyLocked` unless it is stopped -/
  thenLocked : (w.failures.length : Int) = production.hardCeiling + 1 →
    ∀ w', Runs.Reach (fun w e w' => w' = w.step env e) Forward w w' → ∀ m, w'.manager = some m →
      ∀ now entry executed, (submission env w'.phone m now entry executed).outcome = none ∨
        (submission env w'.phone m now entry executed).answer = some .permanentlyLocked
  /-- after the `n`-th failure, above the grace, no verification before its delay is over -/
  delayed : ∀ (n : Nat) t, production.graceAttempts < n → w.failures[n - 1]? = some t →
    ∀ m, w.manager = some m → ∀ now entry executed, w.phone.clock ≤ now →
      (submission env w.phone m now entry executed).verifying = true →
        t + min (2 ^ (n - production.graceAttempts - 1).toNat) 60 ≤ now
  /-- what a real match leaves is what a duress match leaves -/
  sameState : ∀ m m' now now' entry entry' executed executed' (p p' : Phone κ δ),
    (submission env p m now entry executed).answer = some .unlocked →
    (submission env p' m' now' entry' executed').answer = some .duress →
      (submission env p m now entry executed).state.lockoutRow =
        (submission env p' m' now' entry' executed').state.lockoutRow

/-- Guessing is bounded, from a phone without a lockout on. -/
theorem guessing_bounded (hcodec : env.lockout.RoundTrips) {device : Device κ δ} {clock : ℚ}
    (hrun : Runs.Reach (fun w e w' => w' = w.step env e) Forward
      ⟨⟨device, none, clock⟩, none, []⟩ w) : Bounded env w := by
  have hkeep : ∀ {w w' : Guessing κ δ}, Counted env w →
      Runs.Reach (fun w e w' => w' = w.step env e) Forward w w' → Counted env w' := by
    intro w w' h hrun
    refine hrun.invariant (Counted env) ?_ h
    rintro w e _ h hforward rfl
    exact h.step hcodec hforward
  have hcounted : Counted env w := by
    refine hkeep ?_ hrun
    exact ⟨Int.le_refl 0, (by decide : (0 : Int) ≤ 50 + 1), nofun, nofun, nofun⟩
  constructor
  · exact hcounted.counted.trans hcounted.ceiling
  · intro hfull w' hrun' m hm now entry executed
    have hfull' : Counted env w' ∧ (w'.failures.length : Int) = production.hardCeiling + 1 := by
      refine hrun'.invariant
        (fun w => Counted env w ∧ (w.failures.length : Int) = production.hardCeiling + 1) ?_
        ⟨hcounted, hfull⟩
      rintro w e _ ⟨h, hfull⟩ hforward rfl
      exact ⟨h.step hcodec hforward, h.locked_step hcodec hfull e ▸ hfull⟩
    exact hfull'.1.locked hcodec hfull'.2 hm now entry executed
  · intro n t hgrace ht m hm now entry executed hnow hverifying
    have hallow := verdict_of_verifying hcodec (hcounted.idle m hm) hverifying
    obtain ⟨last, hlast, hle⟩ := hcounted.latest t (List.mem_of_getElem? ht)
    obtain ⟨hlength, -⟩ := List.getElem?_eq_some_iff.mp ht
    have hattempts : (n : Int) ≤
        (PasscodeLockoutStore.decoded env.lockout w.phone.lockoutRow).attempts := by
      refine le_trans ?_ hcounted.counted
      omega
    have hdelay := le_delay hattempts
    have hover := (decision_eq_allow hallow).2 last hlast (hgrace.trans_le hattempts)
    linarith
  · intro m m' now now' entry entry' executed executed' p p' hreal hduress
    obtain ⟨data, hencode, hrow⟩ := holding_of_match hcodec (.inl hreal)
    obtain ⟨data', hencode', hrow'⟩ := holding_of_match hcodec (.inr hduress)
    rw [hrow, hrow', ← hencode, ← hencode']

/-! ## Failures past the grace -/

/-- A state as its number in a list of all states. -/
def sampleCodec : LockoutCodec where
  encode state := some (decimal (Encodable.encode (state.attempts, state.lastFailedAt)))
  decode data := (Encodable.decode (digitsValue data)).map fun state : Int × Option ℚ =>
    ⟨state.1, state.2⟩

theorem sampleCodec_roundTrips : sampleCodec.RoundTrips := by
  intro state
  refine ⟨_, rfl, ?_⟩
  show (Encodable.decode (digitsValue (decimal _))).map _ = _
  rw [digitsValue_decimal, Encodable.encodek]
  rfl

/-- A phone on which no passcode is set, and no hash is ever equal. -/
def sampleLockEnv : LockEnv where
  passcode := ⟨fun _ _ => none, String.length⟩
  lockout := sampleCodec
  formatRetry _ := ""

/-- An install on which nothing was entered. -/
def sampleGuessing : Guessing Unit Unit :=
  ⟨⟨⟨.absent, fun _ => none, none, none, fun _ count => FixedBytes.replicate count 7, 0, 0⟩,
    none, 0⟩, none, []⟩

/-- An entry every second, none of which matches. -/
def afterEntries : Nat → Guessing Unit Unit
  | 0 => sampleGuessing.step sampleLockEnv (.relaunch true sampleGuessing.phone.device)
  | n + 1 => (afterEntries n).step sampleLockEnv (.submit (n + 1) "1" 20)

/-- The clock of the phone is not ahead of the entries. -/
def onTime (n : Nat) : Bool := (List.range n).all fun i => (afterEntries i).phone.clock ≤ i + 1

theorem afterEntries_reach :
    ∀ n, onTime n = true → Runs.Reach (fun w e w' => w' = w.step sampleLockEnv e) Forward
      sampleGuessing (afterEntries n)
  | 0, _ => Runs.Reach.refl.snoc (e := .relaunch true sampleGuessing.phone.device) rfl trivial
  | n + 1, h => by
    rw [onTime, List.range_succ, List.all_append, Bool.and_eq_true] at h
    refine (afterEntries_reach n h.1).snoc (e := .submit (n + 1) "1" 20) rfl ?_
    simpa [Forward] using h.2

/-- The first six entries are verified without a delay and the seventh after one of a second.
The eighth comes too early and is not verified. -/
theorem guessing_bounded_first :
    (afterEntries 8).failures = [1, 2, 3, 4, 5, 6, 7] ∧ Bounded sampleLockEnv (afterEntries 8) :=
  ⟨by decide +kernel, guessing_bounded sampleCodec_roundTrips
    (afterEntries_reach 8 (by decide +kernel))⟩

end LockManager

end Pizzini.App
