import Mathlib.Tactic.NormNum
import Pizzini.Lib.Runs
import Pizzini.App.LockManager

/-!
# Auto-lock (LockManager.swift:143–214)

Any sequence of scene events, of locking and of unlocking, with the lock gate active. Real time
goes on beside `CLOCK_UPTIME_RAW`, the clock that the handlers read, which stands still while
the device sleeps. `since` and `owed` record what the timeout is about: since when the scene
has been in the background, and whether it left it after the timeout with no unlock since.

The handlers lock on the way to the foreground, by the uptime since the scene was last
reported in the background. A night in which the device sleeps is short by that clock
(`night_asleep_stays_unlocked`), and a scene that becomes active with no report on the way is
not looked at. `auto_lock_engages`: where neither happens, what is owed is locked.
-/

namespace Pizzini.App

namespace LockManager

/-! ## Runs -/

/-- The ways to unlock. -/
inductive Unlocking where
  /-- `attemptUnlock`, with an evaluation that succeeds -/
  | biometrics
  /-- `submitPasscode` with `.unlocked` -/
  | passcode
  /-- `submitPasscode` with `.duress`, once the wipe is done -/
  | duress
deriving DecidableEq

/-- The lock after an unlock. -/
def unlock (m : LockManager) : Unlocking → LockManager
  | .biometrics => m.attemptUnlock .success
  | .passcode =>
    { m with
      isLocked := false
      isPasscodeSheetPresented := false
      lastError := none }
  | .duress => m.unlockAfterDuress

/-- The process, and the scene it runs in. -/
structure Scene where
  manager : LockManager
  /-- real time -/
  now : ℚ
  /-- `CLOCK_UPTIME_RAW` -/
  uptime : ℚ
  /-- while the scene is in the background: when it went there -/
  since : Option ℚ
  /-- it was there for the timeout, and nothing was unlocked since it left -/
  owed : Bool
deriving DecidableEq

/-- What happens. -/
inductive SceneEvent where
  /-- time goes by, for `awake` of which the device does not sleep -/
  | elapse (real awake : ℚ)
  | willDeactivate
  | didEnterBackground
  | willEnterForeground
  | didActivate
  | lockNow
  | unlock (unlocking : Unlocking)
deriving DecidableEq

/-- Neither clock goes back, and the device is not awake for longer than there is time. -/
def SceneEvent.Possible : SceneEvent → Prop
  | elapse real awake => 0 ≤ awake ∧ awake ≤ real
  | _ => True

instance : DecidablePred SceneEvent.Possible
  | .elapse real awake => inferInstanceAs (Decidable (0 ≤ awake ∧ awake ≤ real))
  | .willDeactivate | .didEnterBackground | .willEnterForeground | .didActivate | .lockNow
  | .unlock _ => inferInstanceAs (Decidable True)

namespace Scene

variable (timeout : AutoLockTimeout)

/-- The scene has been in the background for the timeout. -/
def Overdue (s : Scene) : Prop := ∃ since, s.since = some since ∧ timeout.seconds ≤ s.now - since

instance (s : Scene) : Decidable (s.Overdue timeout) :=
  match h : s.since with
  | none => isFalse fun ⟨_, hsince, _⟩ => nomatch h.symm.trans hsince
  | some since =>
    decidable_of_iff (timeout.seconds ≤ s.now - since)
      ⟨fun hle => ⟨since, h, hle⟩, fun ⟨_, hsince, hle⟩ => Option.some.inj (h.symm.trans hsince) ▸ hle⟩

/-- The scene leaves the background, if it is there. -/
def leave (s : Scene) : Scene :=
  { s with
    since := none
    owed := s.owed || decide (s.Overdue timeout) }

/-- One step, with the lock gate active. -/
def step (s : Scene) : SceneEvent → Scene
  | .elapse real awake =>
    { s with
      now := s.now + real
      uptime := s.uptime + awake }
  | .willDeactivate => { s with manager := s.manager.handleWillDeactivate }
  | .didEnterBackground =>
    { s with
      manager := s.manager.handleDidEnterBackground s.uptime
      since := s.since.or (some s.now) }
  | .willEnterForeground =>
    { s.leave timeout with manager := s.manager.handleWillEnterForeground true timeout s.uptime }
  | .didActivate => { s.leave timeout with manager := s.manager.handleDidActivate }
  | .lockNow => { s with manager := s.manager.lockNow true }
  | .unlock unlocking =>
    { s with
      manager := s.manager.unlock unlocking
      owed := false }

/-- After the timeout in the background the app is locked, until it is unlocked. -/
def Engaged (s : Scene) : Prop := s.owed = true → s.manager.isLocked = true

/-- A scene that leaves the background after the timeout is locked already, or it is reported on
its way to the foreground, at least the timeout by the uptime after it was last reported in the
background. -/
def Noticed (s : Scene) : SceneEvent → Prop
  | .willEnterForeground => s.Overdue timeout → s.manager.isLocked = true ∨
      ∀ backgroundedAtUptime, s.manager.backgroundedAtUptime = some backgroundedAtUptime →
        timeout.seconds ≤ s.uptime - backgroundedAtUptime
  | .didActivate => s.Overdue timeout → s.manager.isLocked = true
  | _ => True

variable {timeout} {s : Scene}

/-! ## One step -/

/-- What is locked on the way to the foreground. -/
theorem isLocked_handleWillEnterForeground (m : LockManager) (uptime : ℚ) :
    (m.handleWillEnterForeground true timeout uptime).isLocked = true ↔
      m.isLocked = true ∨ ∀ backgroundedAtUptime,
        m.backgroundedAtUptime = some backgroundedAtUptime →
          timeout.seconds ≤ uptime - backgroundedAtUptime := by
  rw [handleWillEnterForeground, if_neg (by simp)]
  cases hrecorded : m.backgroundedAtUptime with
  | none => exact ⟨fun _ => .inr nofun, fun _ => rfl⟩
  | some recorded =>
    show (if _ then true else m.isLocked) = true ↔ _
    by_cases helapsed : timeout.seconds ≤ uptime - recorded
    · rw [if_pos helapsed]
      refine ⟨fun _ => .inr ?_, fun _ => rfl⟩
      rintro _ ⟨⟩
      exact helapsed
    · rw [if_neg helapsed]
      refine ⟨.inl, ?_⟩
      rintro (hlocked | hall)
      · exact hlocked
      · exact absurd (hall recorded rfl) helapsed

/-- What is owed once the scene has left. -/
theorem owed_leave : (s.leave timeout).owed = true ↔ s.owed = true ∨ s.Overdue timeout := by
  rw [leave, Bool.or_eq_true, decide_eq_true_iff]

/-- A step keeps the lock engaged exactly when it is noticed. -/
theorem engaged_step_iff (h : s.Engaged) (e : SceneEvent) :
    (s.step timeout e).Engaged ↔ s.Noticed timeout e := by
  cases e with
  | elapse => exact iff_of_true h trivial
  | willDeactivate => exact iff_of_true h trivial
  | didEnterBackground => exact iff_of_true h trivial
  | lockNow => exact iff_of_true (fun _ => rfl) trivial
  | unlock => exact iff_of_true nofun trivial
  | didActivate =>
    show ((s.leave timeout).owed = true → _) ↔ _
    rw [owed_leave]
    exact ⟨fun hengaged hoverdue => hengaged (.inr hoverdue),
      fun hnoticed howed => howed.elim h hnoticed⟩
  | willEnterForeground =>
    show ((s.leave timeout).owed = true →
      (s.manager.handleWillEnterForeground true timeout s.uptime).isLocked = true) ↔ _
    rw [owed_leave, isLocked_handleWillEnterForeground]
    exact ⟨fun hengaged hoverdue => hengaged (.inr hoverdue),
      fun hnoticed howed => howed.elim (fun howed => .inl (h howed)) hnoticed⟩

/-! ## All runs -/

/-- In a run in which every scene that leaves the background after the timeout is noticed, the
app is locked whenever it is owed, in particular when the shield is lifted. -/
theorem auto_lock_engages {m : LockManager} {now uptime : ℚ}
    (hrun : Runs.Reach (fun s e s' => s' = s.step timeout e)
      (fun s e => e.Possible ∧ s.Noticed timeout e) ⟨m, now, uptime, none, false⟩ s) :
    s.Engaged := by
  refine hrun.invariant Engaged ?_ nofun
  rintro s e _ h ⟨-, hnoticed⟩ rfl
  exact (engaged_step_iff h e).mpr hnoticed

/-! ## Away for some time -/

/-- The process after start-up and an unlock. -/
def unlockedScene : Scene := ⟨(launch true).unlock .biometrics, 0, 0, none, false⟩

/-- The user switches away, and back after `real`, for `awake` of which the device is awake. -/
def away (real awake : ℚ) : List SceneEvent :=
  [.willDeactivate, .didEnterBackground, .elapse real awake, .willEnterForeground, .didActivate]

/-- Ten minutes, with the device awake. -/
def afterTenMinutes : Scene := (away 600 600).foldl (step .fiveMinutes) unlockedScene

theorem auto_lock_engages_awake : afterTenMinutes.owed = true ∧ afterTenMinutes.Engaged := by
  refine ⟨by decide +kernel, ?_⟩
  have hgone : Runs.Reach (fun s e s' => s' = s.step .fiveMinutes e)
      (fun s e => e.Possible ∧ s.Noticed .fiveMinutes e) unlockedScene
      (((away 600 600).take 3).foldl (step .fiveMinutes) unlockedScene) :=
    ((Runs.Reach.refl.snoc (e := .willDeactivate) rfl ⟨trivial, trivial⟩).snoc
      (e := .didEnterBackground) rfl ⟨trivial, trivial⟩).snoc
      (e := .elapse 600 600) rfl ⟨by decide +kernel, trivial⟩
  refine auto_lock_engages ((hgone.snoc (e := .willEnterForeground) rfl
    ⟨trivial, fun _ => .inr ?_⟩).snoc (e := .didActivate) rfl
      ⟨trivial, fun _ => by decide +kernel⟩)
  rintro _ ⟨⟩
  decide +kernel

/-- Eight hours, for thirty seconds of which the device is awake. -/
def afterNight : Scene := (away 28800 30).foldl (step .fiveMinutes) unlockedScene

/-- After a night asleep, the shield is lifted from an app that is not locked. -/
theorem night_asleep_stays_unlocked :
    (∀ e ∈ away 28800 30, e.Possible) ∧ afterNight.owed = true ∧
      afterNight.manager.isShielded = false ∧ afterNight.manager.isLocked = false := by
  decide +kernel

end Scene

end LockManager

end Pizzini.App
