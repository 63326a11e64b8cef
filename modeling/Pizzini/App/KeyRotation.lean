import Pizzini.Lib.Runs
import Pizzini.App.Launch

/-!
# Launches and the rotation of the at-rest key

A run is a sequence of launches, each of which may be stopped anywhere and in which any
write to the Keychain may fail (reads and deletions succeed), with uses of the open database
in between. The invariant is
`Sound`: the wrap row unwraps, and the file is encrypted under the key that the wrap row and
the salt row derive.

`rotateKeyMaterial` breaks it between the rekey and the write of the live salt. The staged
salt is there for a stop in between, but `openWithRecovery` tries it only when the primary
key fails as `keyingFailed`, and a wrong key fails earlier, in `PRAGMA journal_mode = WAL;`,
as `executeFailed`. `rotation_keeps_database_openable` is for the runs in which every launch
that rekeys goes on to write the salt; `stop_after_rekey_locks_out` is a run in which one
does not.
-/

namespace Pizzini.App

open Wire Interruptible Runs

variable {κ δ : Type} {env : KeyEnv κ} [DecidableEq κ] [Inhabited δ]

/-! ## Runs of launches -/

/-- A launch under a schedule of faults and a stop, or a use of the open database, which
leaves other rows in it. -/
inductive LaunchEvent (δ : Type) where
  | launch (now : Nat) (schedule : List Bool)
  | use (rows : δ)

/-- A new process has no connection. -/
def Device.relaunched (d : Device κ δ) : Device κ δ := { d with handle := none }

/-- The launch of a device under a schedule. -/
def launchUnder (env : KeyEnv κ) (d : Device κ δ) (now : Nat) (schedule : List Bool) :
    Ending (Op κ) BootError Unit (Device κ δ) :=
  run Device.act (SQLiteStorage.bootstrap env now) schedule d.relaunched

/-- Only writes to the Keychain fail. -/
def OnlyWritesFail (trace : List (Op κ × Bool)) : Prop :=
  ∀ e ∈ trace, e.2 = true → e.1.isWrite = true

/-- What happens to a device. -/
inductive LaunchStep (env : KeyEnv κ) : Device κ δ → LaunchEvent δ → Device κ δ → Prop where
  | launch {d : Device κ δ} (now : Nat) (schedule : List Bool)
      (writes : OnlyWritesFail (launchUnder env d now schedule).trace) :
      LaunchStep env d (.launch now schedule) (launchUnder env d now schedule).state
  | use {d : Device κ δ} {key : κ} {content : Content δ} (rows : δ)
      (handle : d.handle = some key) (file : d.file = .keyed key content) :
      LaunchStep env d (.use rows) { d with file := .keyed key { content with rows := rows } }

/-- A fresh install: no file, an empty Keychain, no wrapping key. -/
structure FreshInstall (d : Device κ δ) : Prop where
  file : d.file = .absent
  keychain : ∀ account, d.keychain account = none
  enclave : d.enclave = none

/-- The next launch in which nothing fails opens the database with all its rows. -/
def OpensNext (env : KeyEnv κ) (d : Device κ δ) : Prop :=
  ∀ now, ∃ d' key content,
    runClean Device.act (SQLiteStorage.bootstrap env now) d.relaunched = (.ok (), d') ∧
      d'.file = .keyed key content ∧ d'.handle = some key ∧ content.rows = d.file.rows

/-- A launch that rekeys the database goes on to write the live salt. -/
def PromotesItsRekey (env : KeyEnv κ) (d : Device κ δ) : LaunchEvent δ → Prop
  | .launch now schedule =>
    (launchUnder env d now schedule).trace.foldl (fun waiting e => rekeyOpen waiting e.1 e.2)
      false = false
  | .use _ => True

omit [DecidableEq κ] in
theorem Sound.relaunched {rows : δ} {d : Device κ δ} (h : Sound env rows d) :
    Sound env rows d.relaunched :=
  ⟨h.rows, h.wrap, h.keyed⟩

theorem Sound.opensNext {d : Device κ δ} (h : Sound env d.file.rows d) : OpensNext env d := by
  intro now
  have hlaunch : (launchRegime env d.file.rows false).Holds (Launched env d.file.rows false)
      (SQLiteStorage.bootstrap env now) false d.relaunched := holds_bootstrap h.relaunched
  obtain ⟨waiting, -, hclean⟩ := hlaunch.runClean nofun
  obtain ⟨-, ⟨a, ha⟩, key, hopened⟩ := hclean rfl
  obtain ⟨content, hfile⟩ := hopened.pages
  refine ⟨_, key, content, Prod.ext ha rfl, hfile, hopened.handle, ?_⟩
  rw [← hopened.sound.rows]
  exact (congrArg DbFile.rows hfile).symm

/-- What a launch that promotes its rekey, or a use, leaves. -/
theorem Sound.step {d d' : Device κ δ} {e : LaunchEvent δ} (h : Sound env d.file.rows d)
    (hok : PromotesItsRekey env d e) (hstep : LaunchStep env d e d') :
    Sound env d'.file.rows d' := by
  cases hstep with
  | launch now schedule writes =>
    have hlaunch : (launchRegime env d.file.rows true).Holds (Launched env d.file.rows true)
        (SQLiteStorage.bootstrap env now) false d.relaunched := holds_bootstrap h.relaunched
    have hallowed : ∀ (trace : List (Op κ × Bool)) (waiting : Bool), OnlyWritesFail trace →
        (launchRegime env d.file.rows true).Allowed waiting trace := by
      intro trace
      induction trace with
      | nil => intro _ _; trivial
      | cons e trace ih =>
        intro waiting hwrites
        refine ⟨fun hfails => ⟨rfl, hwrites e (List.mem_cons_self ..) hfails⟩, ih _ ?_⟩
        exact fun e' he' => hwrites e' (List.mem_cons_of_mem _ he')
    have hend := hlaunch.run schedule (hallowed _ false writes)
    have hsound : Sound env d.file.rows (launchUnder env d now schedule).state := by
      split at hend
      · exact hend hok
      · exact hend.1 hok
    rw [hsound.rows]
    exact hsound
  | @use key content rows handle file =>
    refine ⟨rfl, h.wrap, ?_⟩
    intro k content' hkeyed
    obtain ⟨hk, hcontent⟩ := DbFile.keyed.inj hkeyed
    rw [← hk, ← hcontent]
    exact h.keyed key content file

omit [DecidableEq κ] in
theorem FreshInstall.sound {d : Device κ δ} (h : FreshInstall d) : Sound env d.file.rows d := by
  refine ⟨rfl, fun hwrap => absurd (h.keychain .wrap) hwrap, ?_⟩
  · intro key content hkeyed
    rw [h.file] at hkeyed
    cases hkeyed

/-- In every run from a fresh install in which each launch that rekeys goes on to write the
live salt, the next launch without faults opens the database with all its rows. -/
theorem rotation_keeps_database_openable {d d' : Device κ δ} (hfresh : FreshInstall d)
    (hrun : Reach (LaunchStep env) (PromotesItsRekey env) d d') : OpensNext env d' := by
  have hsound : Sound env d'.file.rows d' :=
    hrun.invariant (fun d => Sound env d.file.rows d) (fun h hok hstep => h.step hok hstep)
      hfresh.sound
  exact hsound.opensNext

/-! ## Sample runs -/

/-- Key material in the clear: a wrapped seed carries the number of its wrapping key, and a
database key is the seed and the salt that it is derived from. -/
def sampleKeyEnv : KeyEnv (Bytes × Bytes) where
  wrap enclaveKey seed := UInt8.ofNat enclaveKey :: seed
  unwrap enclaveKey wrapped :=
    match wrapped with
    | [] => none
    | tag :: seed => if tag = UInt8.ofNat enclaveKey then some seed else none
  unwrap_wrap _ _ := if_pos rfl
  argon2id seed salt _ := (seed, salt)
  encodeParams params := beBytes 4 params.memoryKiB.toNat
  decodeParams bytes := if bytes = beBytes 4 65536 then some .production else none

/-- A fresh install whose `n`-th random bytes are all `n`. -/
def sampleDevice : Device (Bytes × Bytes) (List Nat) where
  file := .absent
  keychain _ := none
  enclave := none
  handle := none
  random n count := FixedBytes.replicate count (UInt8.ofNat n)
  drawn := 0
  enclaveKeys := 0

/-- The rows of the database are `rows` now. -/
def Device.withRows (d : Device κ δ) (rows : δ) : Device κ δ :=
  match d.file with
  | .keyed key content => { d with file := .keyed key { content with rows := rows } }
  | _ => d

omit [DecidableEq κ] [Inhabited δ] in
theorem withRows_of_keyed {d : Device κ δ} {key : κ} {content : Content δ} (rows : δ)
    (h : d.file = .keyed key content) :
    d.withRows rows = { d with file := .keyed key { content with rows := rows } } := by
  unfold Device.withRows
  rw [h]

/-- The first launch of the install, without faults. -/
def firstLaunch : LaunchEvent (List Nat) := .launch 0 (List.replicate 60 false)

/-- The install after its first launch. -/
def launchedDevice : Device (Bytes × Bytes) (List Nat) :=
  (launchUnder sampleKeyEnv sampleDevice 0 (List.replicate 60 false)).state

/-- The install with three messages. -/
def usedDevice : Device (Bytes × Bytes) (List Nat) := launchedDevice.withRows [1, 2, 3]

/-- A launch eight days later, stopped after its `n`-th call. -/
def laterLaunch (n : Nat) : LaunchEvent (List Nat) :=
  .launch (8 * 24 * 3600 * 1000) (List.replicate n false)

theorem sampleDevice_fresh : FreshInstall sampleDevice := ⟨rfl, fun _ => rfl, rfl⟩

/-- The install is launched and used. -/
theorem reaches_usedDevice {ok : Device (Bytes × Bytes) (List Nat) → LaunchEvent (List Nat) → Prop}
    (hlaunch : ok sampleDevice firstLaunch) (huse : ∀ d rows, ok d (.use rows)) :
    Reach (LaunchStep sampleKeyEnv) ok sampleDevice usedDevice := by
  have hstep : LaunchStep sampleKeyEnv sampleDevice firstLaunch launchedDevice :=
    .launch _ _ (by unfold OnlyWritesFail; decide +kernel)
  have hopen : launchedDevice.file = .keyed (List.replicate 32 0, List.replicate 32 2) ⟨1, []⟩ ∧
      launchedDevice.handle = some (List.replicate 32 0, List.replicate 32 2) := by
    decide +kernel
  rw [usedDevice, withRows_of_keyed _ hopen.1]
  exact (Reach.refl.snoc hstep hlaunch).snoc (.use [1, 2, 3] hopen.2 hopen.1) (huse _ _)

/-- Both launches go through: the first rotation and the one eight days later. -/
theorem rotation_keeps_sample_openable :
    ∃ d, Reach (LaunchStep sampleKeyEnv) (PromotesItsRekey sampleKeyEnv) sampleDevice d ∧
      d.file.rows = [1, 2, 3] ∧ OpensNext sampleKeyEnv d := by
  have hused : Reach (LaunchStep sampleKeyEnv) (PromotesItsRekey sampleKeyEnv) sampleDevice
      usedDevice :=
    reaches_usedDevice (by unfold firstLaunch PromotesItsRekey; decide +kernel) fun _ _ => trivial
  have hstep : LaunchStep sampleKeyEnv usedDevice (laterLaunch 60) _ :=
    .launch _ _ (by unfold OnlyWritesFail; decide +kernel)
  have hrun := hused.snoc hstep (by unfold laterLaunch PromotesItsRekey; decide +kernel)
  exact ⟨_, hrun, by decide +kernel, rotation_keeps_database_openable sampleDevice_fresh hrun⟩

/-- The second launch is stopped between the rekey and the write of the live salt. The next
launch fails in the third opening pragma, although the staged salt is in place. -/
theorem stop_after_rekey_locks_out :
    ∃ d, FreshInstall sampleDevice ∧
      Reach (LaunchStep sampleKeyEnv) (fun _ _ => True) sampleDevice d ∧
      (d.keychain .stagedSalt).isSome = true ∧
      (runClean Device.act (SQLiteStorage.bootstrap sampleKeyEnv 0) d.relaunched).1 =
        .error (.database (.executeFailed .notADb .journalModeWAL)) ∧
      ¬ OpensNext sampleKeyEnv d := by
  have hused : Reach (LaunchStep sampleKeyEnv) (fun _ _ => True) sampleDevice usedDevice :=
    reaches_usedDevice trivial fun _ _ => trivial
  have hstep : LaunchStep sampleKeyEnv usedDevice (laterLaunch 26) _ :=
    .launch _ _ (by unfold OnlyWritesFail; decide +kernel)
  have herror : (runClean Device.act (SQLiteStorage.bootstrap sampleKeyEnv 0)
      (launchUnder sampleKeyEnv usedDevice (8 * 24 * 3600 * 1000)
        (List.replicate 26 false)).state.relaunched).1 =
      .error (.database (.executeFailed .notADb .journalModeWAL)) := by
    decide +kernel
  refine ⟨_, sampleDevice_fresh, hused.snoc hstep trivial, by decide +kernel, herror, ?_⟩
  intro hopens
  obtain ⟨d', key, content, hrun, -⟩ := hopens 0
  rw [hrun] at herror
  cases herror

end Pizzini.App
