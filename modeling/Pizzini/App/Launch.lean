import Pizzini.App.Connection

/-!
# One launch under failing writes

`launchRegime` is a launch in which writes to the Keychain may fail and which may be stopped
anywhere. Every part of `bootstrap` keeps a sound device sound, up to the rotation: between
the rekey and the write of the live salt a rekey *waits*, and the wrap and salt rows derive
the old key (`holds_rotateKeyMaterial`). `holds_bootstrap` is the whole launch; without
faults it opens the database.
-/

namespace Pizzini.App

open Wire Interruptible

variable {κ δ : Type} {env : KeyEnv κ}

/-! ## Launches with faults -/

variable [DecidableEq κ] [Inhabited δ]

/-- The call writes a row of the Keychain. -/
def Op.isWrite : Op κ → Bool
  | .write _ _ => true
  | _ => false

/-- Whether a rekey still waits for the write of the live salt. -/
def rekeyOpen (waiting : Bool) : Op κ → Bool → Bool
  | .rekey _, _ => true
  | .write .salt _, fails => waiting && fails
  | _, _ => waiting

/-- Launches on a device that holds `rows`: only writes to the Keychain may fail, and they
only if `faults`; wherever the process may be stopped, the device is sound, unless a rekey
waits. -/
def launchRegime (env : KeyEnv κ) (rows : δ) (faults : Bool) :
    Regime (Op κ) Ans (Device κ δ) Bool where
  act := Device.act
  mon := rekeyOpen
  may _ o fails := fails = true → faults = true ∧ o.isWrite = true
  inv waiting d := waiting = false → Sound env rows d

section Calls

variable {rows : δ} {faults waiting : Bool} {d : Device κ δ}

/-- A call that writes no row of the Keychain does not fail. -/
theorem holds_steady {o : Op κ} (ho : o.isWrite = false)
    {Q : Except BootError (Ans o) → Bool → Device κ δ → Prop} :
    (launchRegime env rows faults).Holds Q (call o) waiting d ↔
      (waiting = false → Sound env rows d) ∧
        Q (.ok (d.act o false).1) (rekeyOpen waiting o false) (d.act o false).2 := by
  refine and_congr_right fun _ => ⟨fun h => h false nofun, ?_⟩
  intro h fails hmay
  cases fails with
  | false => exact h
  | true => exact absurd ((hmay rfl).2.symm.trans ho) (by decide)

/-- A write may fail. -/
theorem holds_anyWrite {o : Op κ} (ho : o.isWrite = true)
    {Q : Except BootError (Ans o) → Bool → Device κ δ → Prop} :
    (launchRegime env rows faults).Holds Q (call o) waiting d ↔
      (waiting = false → Sound env rows d) ∧
        Q (.ok (d.act o false).1) (rekeyOpen waiting o false) (d.act o false).2 ∧
          (faults = true → Q (.ok (d.act o true).1) (rekeyOpen waiting o true) (d.act o true).2) := by
  refine and_congr_right fun _ => ?_
  constructor
  · intro h
    exact ⟨h false nofun, fun hfaults => h true fun _ => ⟨hfaults, ho⟩⟩
  · rintro ⟨hdone, hfailed⟩ fails hmay
    cases fails with
    | false => exact hdone
    | true => exact hfailed (hmay rfl).1

theorem holds_read {Q : Except BootError (Option Bytes) → Bool → Device κ δ → Prop}
    {account : Account} :
    (launchRegime env rows faults).Holds Q (Keychain.read account) waiting d ↔
      (waiting = false → Sound env rows d) ∧ Q (.ok (d.keychain account)) waiting d :=
  holds_steady rfl

theorem holds_random {count : Nat}
    {Q : Except BootError (Option (FixedBytes count)) → Bool → Device κ δ → Prop} :
    (launchRegime env rows faults).Holds Q (secRandom count) waiting d ↔
      (waiting = false → Sound env rows d) ∧
        Q (.ok (some (d.random d.drawn count))) waiting { d with drawn := d.drawn + 1 } :=
  holds_steady rfl

theorem holds_write {Q : Except BootError Bool → Bool → Device κ δ → Prop} {account : Account}
    {data : Bytes} (hsalt : account ≠ .salt) :
    (launchRegime env rows faults).Holds Q (Keychain.write account data) waiting d ↔
      (waiting = false → Sound env rows d) ∧
        Q (.ok true) waiting (d.setRow account (some data)) ∧
          (faults = true → Q (.ok false) waiting d) := by
  have hkept : ∀ fails, rekeyOpen waiting (.write account data : Op κ) fails = waiting := by
    intro fails
    cases account <;> first | rfl | exact absurd rfl hsalt
  refine (holds_anyWrite rfl).trans ?_
  rw [hkept, hkept]
  exact Iff.rfl

theorem holds_writeSalt {Q : Except BootError Bool → Bool → Device κ δ → Prop} {data : Bytes} :
    (launchRegime env rows faults).Holds Q (Keychain.write .salt data) waiting d ↔
      (waiting = false → Sound env rows d) ∧
        Q (.ok true) false (d.setRow .salt (some data)) ∧
          (faults = true → Q (.ok false) waiting d) := by
  refine (holds_anyWrite rfl).trans ?_
  show (_ ∧ Q _ (waiting && false) _ ∧ (_ → Q _ (waiting && true) _)) ↔ _
  rw [Bool.and_false, Bool.and_true]
  exact Iff.rfl

theorem holds_delete {Q : Except BootError Bool → Bool → Device κ δ → Prop} {account : Account} :
    (launchRegime env rows faults).Holds Q (Keychain.delete account) waiting d ↔
      (waiting = false → Sound env rows d) ∧ Q (.ok true) waiting (d.setRow account none) :=
  holds_steady rfl

end Calls

/-! ## What the parts of a launch keep -/

section Parts

variable {rows : δ} {faults : Bool} {d : Device κ δ}

/-- A condition on sound devices that changes of the row `account` and draws of random bytes
keep. -/
structure Indifferent (env : KeyEnv κ) (rows : δ) (P : Device κ δ → Prop)
    (account : Account) : Prop where
  sound : ∀ {d}, P d → Sound env rows d
  row : ∀ {d} (row), P d → P (d.setRow account row)
  drawn : ∀ {d : Device κ δ} (n), P d → P { d with drawn := n }

theorem Indifferent.secureDelete {P : Device κ δ → Prop} {account : Account}
    (hP : Indifferent env rows P account) (noiseCount : Bytes → Nat) (h : P d) :
    (launchRegime env rows faults).Holds (Returns false fun _ => P)
      (DBKey.secureDelete noiseCount account) false d := by
  have hdelete : ∀ {d}, P d →
      (launchRegime env rows faults).Holds (Returns false fun _ => P)
        (Keychain.delete account) false d := by
    intro d hd
    exact holds_delete.mpr ⟨fun _ => hP.sound hd, .mk (hP.row _ hd)⟩
  have hwritten : ∀ {d : Device κ δ} {data : Bytes} {Q}, P d →
      (∀ b d', P d' → Q (.ok b) false d') →
        (launchRegime env rows faults).Holds Q (Keychain.write account data) false d := by
    intro d data Q hd hQ
    by_cases hsalt : account = .salt
    · subst hsalt
      exact holds_writeSalt.mpr ⟨fun _ => hP.sound hd, hQ _ _ (hP.row _ hd), fun _ => hQ _ _ hd⟩
    · exact (holds_write hsalt).mpr ⟨fun _ => hP.sound hd, hQ _ _ (hP.row _ hd), fun _ => hQ _ _ hd⟩
  refine holds_bind.mpr (holds_bind.mpr (holds_read.mpr ⟨fun _ => hP.sound h, ?_⟩))
  cases d.keychain account with
  | none => exact hdelete h
  | some existing =>
    refine holds_bind.mpr (holds_random.mpr ⟨fun _ => hP.sound h, ?_⟩)
    exact holds_bind.mpr (hwritten (hP.drawn _ h) fun b d' hd' => hdelete hd')

/-- A condition that the rows beside wrap and salt do not matter to. -/
def Aside (env : KeyEnv κ) (rows : δ) (P : Device κ δ → Prop) : Prop :=
  ∀ account, account ≠ .wrap → account ≠ .salt → Indifferent env rows P account

omit [DecidableEq κ] in
theorem SameCore.aside (hd : Sound env rows d) : Aside env rows (SameCore d) := by
  intro account hwrap hsalt
  refine ⟨fun h => h.sound hd, fun row h => h.trans (SameCore.setRow account hwrap hsalt row), ?_⟩
  intro d' n h
  exact ⟨h.file, h.enclave, h.wrap, h.salt⟩

theorem Aside.eraseAll {P : Device κ δ → Prop} (hP : Aside env rows P) (h : P d) :
    (launchRegime env rows faults).Holds (Returns false fun _ => P) AppPasscode.eraseAll false d := by
  have hreal := hP .realSlot (by decide) (by decide)
  have hduress := hP .duressSlot (by decide) (by decide)
  refine holds_returns_bind (hreal.secureDelete _ h) fun hd' => ?_
  exact holds_returns_bind (hduress.secureDelete _ hd') fun hd'' => .mk hd''

/-- Reading a slot, with the legacy rows `legacyHash` and `legacySalt`. -/
theorem Aside.readSlot {P : Device κ δ → Prop} (hP : Aside env rows P)
    {account legacyHash legacySalt : Account}
    (haccounts : ∀ a ∈ [account, legacyHash, legacySalt], a ≠ .wrap ∧ a ≠ .salt) (h : P d) :
    (launchRegime env rows faults).Holds (Returns false fun _ => P)
      (AppPasscode.readSlot account legacyHash legacySalt) false d := by
  have hslot := haccounts account (by simp)
  have hindiff : ∀ a ∈ [account, legacyHash, legacySalt], Indifferent env rows P a :=
    fun a ha => hP a (haccounts a ha).1 (haccounts a ha).2
  have hsound : Sound env rows d := (hindiff account (by simp)).sound h
  refine holds_bind.mpr (holds_read.mpr ⟨fun _ => hsound, ?_⟩)
  dsimp only
  split
  · refine holds_bind.mpr (holds_read.mpr ⟨fun _ => hsound, ?_⟩)
    refine holds_bind.mpr (holds_read.mpr ⟨fun _ => hsound, ?_⟩)
    exact .mk h
  · refine holds_bind.mpr (holds_read.mpr ⟨fun _ => hsound, ?_⟩)
    refine holds_bind.mpr (holds_read.mpr ⟨fun _ => hsound, ?_⟩)
    dsimp only
    split
    · next hash salt _ _ =>
      split
      · refine holds_bind.mpr ((holds_write hslot.2).mpr ⟨fun _ => hsound, ?_, fun _ => .mk h⟩)
        -- the slot is written, and the legacy rows go
        have hwritten := (hindiff account (by simp)).row (some (salt ++ hash)) h
        refine holds_returns_bind ((hindiff legacyHash (by simp)).secureDelete _ hwritten)
          fun hd' => ?_
        exact holds_returns_bind ((hindiff legacySalt (by simp)).secureDelete _ hd')
          fun hd'' => .mk hd''
      · exact .mk h
    · exact .mk h

/-! ### The reconciliation of file and Keychain -/

/-- No file and no wrap row. -/
structure Blank (rows : δ) (d : Device κ δ) : Prop where
  file : d.file = .absent
  rows : rows = default
  wrap : d.keychain .wrap = none

omit [DecidableEq κ] in
theorem Blank.sound (h : Blank rows d) : Sound env rows d := by
  refine sound_of_unkeyed ?_ h.rows ?_
  · intro key content hfile
    rw [h.file] at hfile
    cases hfile
  · exact fun hwrap => absurd h.wrap hwrap

omit [DecidableEq κ] in
theorem Blank.indifferent {account : Account} (hwrap : account ≠ .wrap) :
    Indifferent env rows (Blank rows : Device κ δ → Prop) account where
  sound h := h.sound
  row row h := ⟨h.file, h.rows, (Device.setRow_of_ne _ hwrap.symm row).trans h.wrap⟩
  drawn _ h := ⟨h.file, h.rows, h.wrap⟩

theorem holds_eraseKeyMaterial (hfile : d.file = .absent) (hd : Sound env rows d) :
    (launchRegime env rows faults).Holds (Returns false fun _ => Blank rows)
      DBKey.eraseKeyMaterial false d := by
  have hrows : rows = default := by
    rw [← hd.rows, hfile]
    rfl
  have hblank : Blank rows (d.setRow .wrap none) := ⟨hfile, hrows, d.setRow_self .wrap none⟩
  have hslot : ∀ account, account ≠ .wrap → ∀ {d : Device κ δ}, Blank rows d →
      (launchRegime env rows faults).Holds (Returns false fun _ => Blank rows)
        (DBKey.secureDeleteKeychainSlot account) false d :=
    fun account hne _ h => (Blank.indifferent hne).secureDelete _ h
  refine holds_bind.mpr (holds_delete.mpr ⟨fun _ => hd, ?_⟩)
  refine holds_returns_bind (hslot .salt (by decide) hblank) fun h₁ => ?_
  refine holds_returns_bind (hslot .params (by decide) h₁) fun h₂ => ?_
  refine holds_returns_bind (hslot .lastRotation (by decide) h₂) fun h₃ => ?_
  refine holds_returns_bind (hslot .stagedSalt (by decide) h₃) fun h₄ => ?_
  exact holds_bind.mpr ((holds_steady rfl).mpr
    ⟨fun _ => h₄.sound, .mk ⟨h₄.file, h₄.rows, h₄.wrap⟩⟩)

theorem holds_isInitialized (hd : Sound env rows d) :
    (launchRegime env rows faults).Holds
      (Returns false fun initialized d' => d' = d ∧
        (initialized = false → d.keychain .wrap = none ∨ d.keychain .salt = none))
      DBKey.isInitialized false d := by
  refine holds_bind.mpr (holds_read.mpr ⟨fun _ => hd, ?_⟩)
  dsimp only
  split
  · refine holds_bind.mpr (holds_read.mpr ⟨fun _ => hd, .mk ⟨rfl, fun hsalt => .inr ?_⟩⟩)
    simpa using hsalt
  · next hwrap => exact .mk ⟨rfl, fun _ => .inl (by simpa using hwrap)⟩

theorem holds_fileExists {Q : Except BootError Bool → Bool → Device κ δ → Prop}
    (hd : Sound env rows d) (habsent : d.file = .absent → Q (.ok false) false d)
    (hpresent : d.file ≠ .absent → Q (.ok true) false d) :
    (launchRegime env rows faults).Holds Q (call .fileExists) false d := by
  refine (holds_steady rfl).mpr ⟨fun _ => hd, ?_⟩
  show Q (.ok d.file.isPresent) false d
  cases hfile : d.file with
  | absent => exact habsent hfile
  | empty => exact hpresent (by rw [hfile]; nofun)
  | keyed key content => exact hpresent (by rw [hfile]; nofun)

theorem holds_orphanCheck1 (hd : Sound env rows d) :
    (launchRegime env rows faults).Holds (Returns false fun _ => Sound env rows)
      SQLiteStorage.orphanCheck1 false d := by
  refine holds_bind.mpr (holds_fileExists hd (fun _ => .mk hd) fun hpresent => ?_)
  refine holds_returns_bind (holds_isInitialized hd) ?_
  rintro initialized d' ⟨hsame, hnone⟩
  rw [hsame]
  cases initialized with
  | true => exact .mk hd
  | false =>
    -- without a wrap or a salt row the file has no pages
    have hfile := hd.unkeyed_of_not_initialized ((hnone rfl).imp id fun h => by rw [h]; rfl)
    have hunlinked : Sound env rows { d with file := .absent, handle := none } :=
      sound_of_unkeyed (fun _ _ => nofun) (hd.rows_eq_default hfile) hd.wrap
    refine holds_bind.mpr ((holds_steady rfl).mpr ⟨fun _ => hd, ?_⟩)
    refine ((SameCore.aside hunlinked).eraseAll .refl).mono ?_
    rintro r waiting d' ⟨rfl, a, rfl, h⟩
    exact .mk (h.sound hunlinked)

theorem holds_orphanCheck2 (hd : Sound env rows d) :
    (launchRegime env rows faults).Holds (Returns false fun _ => Sound env rows)
      SQLiteStorage.orphanCheck2 false d := by
  refine holds_bind.mpr (holds_fileExists hd (fun habsent => ?_) fun _ => .mk hd)
  refine holds_returns_bind (holds_isInitialized hd) ?_
  rintro initialized d' ⟨hsame, -⟩
  rw [hsame]
  cases initialized with
  | false => exact .mk hd
  | true =>
    refine holds_returns_bind (holds_eraseKeyMaterial habsent hd) fun {_ d₁} hblank => ?_
    refine ((SameCore.aside hblank.sound).eraseAll (.refl (d := d₁))).mono ?_
    rintro r waiting d' ⟨rfl, a, rfl, h⟩
    exact .mk (h.sound hblank.sound)

theorem holds_reconciliation3 (hd : Sound env rows d) :
    (launchRegime env rows faults).Holds (Returns false fun _ => Sound env rows)
      SQLiteStorage.reconciliation3 false d := by
  have haside := SameCore.aside hd
  have herase : ∀ {d'}, SameCore d d' →
      (launchRegime env rows faults).Holds (Returns false fun _ => Sound env rows)
        AppPasscode.eraseAll false d' := by
    intro d' h
    refine (haside.eraseAll h).mono ?_
    rintro r waiting d'' ⟨rfl, a, rfl, h''⟩
    exact .mk (h''.sound hd)
  refine holds_bind.mpr (holds_fileExists hd (fun _ => ?_) fun _ => .mk hd)
  refine holds_returns_bind (holds_isInitialized hd) ?_
  rintro initialized d' ⟨hsame, -⟩
  rw [hsame]
  cases initialized with
  | true => exact .mk hd
  | false =>
    refine holds_returns_bind
      (holds_returns_bind (haside.readSlot (by decide) .refl) fun h => .mk (P := fun _ => SameCore d) h)
      fun {real d₁} h₁ => ?_
    cases real with
    | true => exact herase h₁
    | false =>
      refine holds_returns_bind
        (holds_returns_bind (haside.readSlot (by decide) h₁) fun h => .mk (P := fun _ => SameCore d) h)
        fun {duress d₂} h₂ => ?_
      cases duress with
      | true => exact herase h₂
      | false => exact .mk (h₂.sound hd)

/-! ### The key -/

/-- The program throws only if there are faults; `P` holds of its result and the device, or
`E` of the device. -/
def Yields {α : Type} (faults : Bool) (P : α → Device κ δ → Prop) (E : Device κ δ → Prop)
    (r : Except BootError α) (waiting : Bool) (d : Device κ δ) : Prop :=
  waiting = false ∧
    match r with
    | .ok a => P a d
    | .error _ => faults = true ∧ E d

theorem holds_yields_bind {α β : Type} {p : Boot κ α} {f : α → Boot κ β}
    {P : α → Device κ δ → Prop} {P' : β → Device κ δ → Prop} {E E' : Device κ δ → Prop}
    {waiting : Bool} (h : (launchRegime env rows faults).Holds (Yields faults P E) p waiting d)
    (hok : ∀ {a d'}, P a d' → (launchRegime env rows faults).Holds (Yields faults P' E') (f a) false d')
    (herror : ∀ {d'}, E d' → E' d') :
    (launchRegime env rows faults).Holds (Yields faults P' E') (p >>= f) waiting d := by
  refine h.bind ?_ ?_
  · rintro a _ d' ⟨rfl, ha⟩
    exact hok ha
  · rintro e _ d' ⟨rfl, hfaults, he⟩
    exact ⟨rfl, hfaults, herror he⟩

/-- The device is sound and the file as it was. -/
def SoundSince (env : KeyEnv κ) (rows : δ) (d d' : Device κ δ) : Prop :=
  Sound env rows d' ∧ d'.file = d.file

theorem holds_enclavePrivateKey (hd : Sound env rows d) :
    (launchRegime env rows faults).Holds
      (Returns false fun key d' => SoundSince env rows d d' ∧ d'.keychain = d.keychain ∧
        d'.enclave = some key ∧ (d.enclave = none ∨ d' = d))
      DBKey.enclavePrivateKey false d := by
  refine holds_bind.mpr ((holds_steady rfl).mpr ⟨fun _ => hd, ?_⟩)
  cases henclave : d.enclave with
  | some key =>
    have hanswer : d.act .enclaveFind false = (.found key, d) := by
      simp only [Device.act, henclave, Bool.false_eq_true, if_false]
    simp only [hanswer]
    exact .mk ⟨⟨hd, rfl⟩, rfl, henclave, .inr rfl⟩
  | none =>
    have hanswer : d.act .enclaveFind false = (.notFound, d) := by
      simp only [Device.act, henclave, Bool.false_eq_true, if_false]
    simp only [hanswer]
    -- no wrap row, so the new key unwraps all there is
    have hwrap : d.keychain .wrap = none := by
      refine Classical.byContradiction fun hrow => ?_
      obtain ⟨seed, key, _, hkey, -⟩ := hd.wrap hrow
      rw [henclave] at hkey
      cases hkey
    have hfile := hd.unkeyed_of_not_initialized (.inl hwrap)
    have hmade : Sound env rows
        { d with enclave := some d.enclaveKeys, enclaveKeys := d.enclaveKeys + 1 } :=
      sound_of_unkeyed hfile (hd.rows_eq_default hfile) fun hrow => absurd hwrap hrow
    exact holds_bind.mpr ((holds_steady rfl).mpr
      ⟨fun _ => hd, .mk ⟨⟨hmade, rfl⟩, rfl, rfl, .inl trivial⟩⟩)

/-- A wrap row is unwrapped, and nothing changes. -/
theorem holds_unwrapOrCreateSeed_of_seed {seed : Bytes} (hd : Sound env rows d)
    (hseed : HasSeed env d seed) :
    (launchRegime env rows faults).Holds (Returns false fun seed' d' => seed' = seed ∧ d' = d)
      (DBKey.unwrapOrCreateSeed env) false d := by
  obtain ⟨key, wrapped, henclave, hwrap, hunwrap⟩ := hseed
  refine holds_bind.mpr (holds_read.mpr ⟨fun _ => hd, ?_⟩)
  simp only [hwrap]
  refine holds_returns_bind (holds_enclavePrivateKey hd) ?_
  rintro key' d' ⟨-, -, hkey', hsame⟩
  have hd' : d' = d := by
    rcases hsame with hnone | hsame
    · rw [henclave] at hnone
      cases hnone
    · exact hsame
  rw [hd', henclave] at hkey'
  rw [← Option.some.inj hkey', hunwrap, hd']
  exact .mk ⟨rfl, rfl⟩

theorem holds_unwrapOrCreateSeed (hd : Sound env rows d) :
    (launchRegime env rows faults).Holds
      (Yields faults (fun seed d' => SoundSince env rows d d' ∧ HasSeed env d' seed)
        (SoundSince env rows d))
      (DBKey.unwrapOrCreateSeed env) false d := by
  cases hwrap : d.keychain .wrap with
  | some w =>
    obtain ⟨seed, hseed⟩ := hd.wrap (by rw [hwrap]; nofun)
    refine (holds_unwrapOrCreateSeed_of_seed hd hseed).mono ?_
    rintro r _ d' ⟨rfl, _, rfl, rfl, rfl⟩
    exact ⟨rfl, ⟨hd, rfl⟩, hseed⟩
  | none =>
    have hfile := hd.unkeyed_of_not_initialized (.inl hwrap)
    have hrows := hd.rows_eq_default hfile
    have hdrawn : Sound env rows { d with drawn := d.drawn + 1 } :=
      sound_of_unkeyed hfile hrows hd.wrap
    refine holds_bind.mpr (holds_read.mpr ⟨fun _ => hd, ?_⟩)
    simp only [hwrap]
    refine holds_bind.mpr (holds_random.mpr ⟨fun _ => hd, ?_⟩)
    refine holds_bind.mpr (holds_returns_bind (holds_enclavePrivateKey hdrawn)
      fun {key d₁} h => ?_)
    obtain ⟨⟨hd₁, hfile₁⟩, hkeychain, henclave, -⟩ := h
    have hseed : HasSeed env (d₁.setRow .wrap (some (env.wrap key (d.random d.drawn 32).1)))
        (d.random d.drawn 32).1 :=
      ⟨key, _, henclave, Device.setRow_self _ _ _, env.unwrap_wrap _ _⟩
    have hwritten : Sound env rows
        (d₁.setRow .wrap (some (env.wrap key (d.random d.drawn 32).1))) :=
      sound_of_unkeyed (fun key content h => hfile key content (hfile₁.symm.trans h)) hrows
        fun _ => ⟨_, hseed⟩
    refine holds_bind.mpr ((holds_write (by decide)).mpr ⟨fun _ => hd₁, ?_, fun hfaults => ?_⟩)
    · exact ⟨rfl, ⟨hwritten, hfile₁⟩, hseed⟩
    · exact ⟨rfl, hfaults, hd₁, hfile₁⟩

theorem holds_loadOrCreateSalt {seed : Bytes} (hd : Sound env rows d) (hseed : HasSeed env d seed) :
    (launchRegime env rows faults).Holds
      (Yields faults (fun salt d' => SoundSince env rows d d' ∧
          Derives env d' (env.argon2id seed salt .production)) (SoundSince env rows d))
      DBKey.loadOrCreateSalt false d := by
  refine holds_bind.mpr (holds_read.mpr ⟨fun _ => hd, ?_⟩)
  dsimp only
  split
  · next salt hsalt =>
    obtain ⟨hrow, hlen⟩ := Option.filter_eq_some_iff.mp hsalt
    exact ⟨rfl, ⟨hd, rfl⟩, seed, salt, hseed, hrow, by simpa using hlen, rfl⟩
  · next hnone =>
    -- a file with pages would have a usable salt row
    have hfile := hd.unkeyed_of_not_initialized (.inr hnone)
    have hrows := hd.rows_eq_default hfile
    refine holds_bind.mpr (holds_random.mpr ⟨fun _ => hd, ?_⟩)
    have hdrawn : Sound env rows { d with drawn := d.drawn + 1 } :=
      sound_of_unkeyed hfile hrows hd.wrap
    have hseed' : HasSeed env (({ d with drawn := d.drawn + 1 } : Device κ δ).setRow .salt
        (some (d.random d.drawn 32).1)) seed := hseed
    have hwritten : Sound env rows (({ d with drawn := d.drawn + 1 } : Device κ δ).setRow .salt
        (some (d.random d.drawn 32).1)) :=
      sound_of_unkeyed hfile hrows fun _ => ⟨seed, hseed'⟩
    refine holds_bind.mpr (holds_writeSalt.mpr ⟨fun _ => hdrawn, ?_, fun hfaults => ?_⟩)
    · refine ⟨rfl, ⟨hwritten, rfl⟩, seed, _, hseed', Device.setRow_self _ _ _, ?_, rfl⟩
      rw [(d.random d.drawn 32).2]
      decide
    · exact ⟨rfl, hfaults, hdrawn, rfl⟩

theorem holds_persistParamsIfMissing {params : Params} (hd : Sound env rows d) :
    (launchRegime env rows faults).Holds
      (Yields faults (fun _ => SameCore d) (SameCore d))
      (DBKey.persistParamsIfMissing env params) false d := by
  refine holds_bind.mpr (holds_read.mpr ⟨fun _ => hd, ?_⟩)
  dsimp only
  split
  · exact ⟨rfl, .refl⟩
  · refine holds_bind.mpr ((holds_write (by decide)).mpr ⟨fun _ => hd, ?_, fun hfaults => ?_⟩)
    · exact ⟨rfl, SameCore.setRow .params (by decide) (by decide) _⟩
    · exact ⟨rfl, hfaults, .refl⟩

/-- The derived key is that of the file, if that has pages, and the rows derive it. -/
theorem holds_deriveKey {persistParams : Bool} (hd : Sound env rows d) :
    (launchRegime env rows faults).Holds
      (Yields faults (fun key d' => SoundSince env rows d d' ∧ Derives env d' key)
        (SoundSince env rows d))
      (DBKey.deriveKey env .production persistParams) false d := by
  refine holds_yields_bind (holds_unwrapOrCreateSeed hd) ?_ id
  rintro seed d₁ ⟨⟨hd₁, hfile₁⟩, hseed⟩
  refine holds_yields_bind (holds_loadOrCreateSalt hd₁ hseed) ?_
    fun h => ⟨h.1, h.2.trans hfile₁⟩
  rintro salt d₂ ⟨⟨hd₂, hfile₂⟩, hkey⟩
  have hsince : ∀ {d'}, SameCore d₂ d' → SoundSince env rows d d' := fun h =>
    ⟨h.sound hd₂, h.file.trans (hfile₂.trans hfile₁)⟩
  cases persistParams with
  | true =>
    refine holds_yields_bind (holds_persistParamsIfMissing hd₂) ?_ hsince
    intro _ d₃ h₃
    exact ⟨rfl, hsince h₃, h₃.derives hkey⟩
  | false => exact ⟨rfl, hsince .refl, hkey⟩

/-! ### The connection -/

theorem holds_loadStoredParams (hd : Sound env rows d) :
    (launchRegime env rows faults).Holds (Returns false fun params d' => params = .production ∧ d' = d)
      (DBKey.loadStoredParams env) false d := by
  refine holds_bind.mpr (holds_read.mpr ⟨fun _ => hd, ?_⟩)
  dsimp only
  split
  · exact .mk ⟨rfl, rfl⟩
  · split
    · next params _ haccepted =>
      exact .mk ⟨by simpa [DBKey.acceptedParamPresets] using haccepted, rfl⟩
    · exact .mk ⟨rfl, rfl⟩

theorem quiet_launchRegime : Quiet env rows (launchRegime env rows faults) false :=
  ⟨rfl, fun _ _ => rfl, fun hd _ => hd⟩

/-- Opening under the key that the rows derive goes through, and the file then has pages. -/
theorem holds_init {key : κ} (hd : Sound env rows d) (hkey : Derives env d key) :
    (launchRegime env rows faults).Holds (Returns false fun _ => Opened env rows key)
      (Database.init key) false d := by
  refine holds_bind.mpr ((holds_steady rfl).mpr ⟨fun _ => hd, ?_⟩)
  refine holds_bind.mpr ((holds_steady rfl).mpr ⟨fun _ => hd.openFile, ?_⟩)
  exact holds_pragmas quiet_launchRegime (hd.connect hkey)

/-! ### Bootstrap -/

/-- The recovery walk is never reached: the primary key opens the file. -/
theorem holds_openWithRecovery {dbFileExists : Bool} (hd : Sound env rows d) :
    (launchRegime env rows faults).Holds
      (Yields faults (fun _ => IsOpen env rows) (Sound env rows))
      (SQLiteStorage.openWithRecovery env .production dbFileExists) false d := by
  refine holds_bind.mpr (holds_attempt.mpr ((holds_deriveKey hd).mono ?_))
  rintro derived _ d₁ ⟨rfl, hderived⟩
  cases derived with
  | error e =>
    obtain ⟨hfaults, hd₁, -⟩ := hderived
    cases dbFileExists with
    | true => exact ⟨rfl, hfaults, hd₁⟩
    | false => exact ⟨rfl, hfaults, hd₁⟩
  | ok key =>
    obtain ⟨⟨hd₁, -⟩, hkey⟩ := hderived
    refine holds_bind.mpr (holds_attempt.mpr ((holds_init hd₁ hkey).mono ?_))
    rintro _ _ d₂ ⟨rfl, a, rfl, h₂⟩
    exact ⟨rfl, key, h₂⟩

/-- What a launch ensures: unless a rekey waits, the device is sound; without faults, the
database is open. -/
def Launched (env : KeyEnv κ) (rows : δ) (faults : Bool) {α : Type} (r : Except BootError α)
    (waiting : Bool) (d : Device κ δ) : Prop :=
  (waiting = false → Sound env rows d) ∧
    (faults = false → waiting = false ∧ (∃ a, r = .ok a) ∧ IsOpen env rows d)

omit [DecidableEq κ] in
theorem Launched.of_isOpen {α : Type} {a : α} (h : IsOpen env rows d) :
    Launched env rows faults (.ok a) false d := by
  obtain ⟨key, hopened⟩ := h
  exact ⟨fun _ => hopened.sound, fun _ => ⟨rfl, ⟨a, rfl⟩, key, hopened⟩⟩

/-- A rotation leaves the database open under the new key. A fault between the rekey and the
write of the live salt leaves a rekey waiting. -/
theorem holds_rotateKeyMaterial {now : Nat} (h : IsOpen env rows d) :
    (launchRegime env rows faults).Holds (Launched env rows faults)
      (DBKey.rotateKeyMaterial env .production now) false d := by
  obtain ⟨key, hopened⟩ := h
  obtain ⟨content, hfile⟩ := hopened.pages
  obtain ⟨hderives, hversion⟩ := hopened.sound.keyed _ _ hfile
  obtain ⟨seed, salt, hseed, -⟩ := hderives
  have hrows : content.rows = rows := by
    rw [← hopened.sound.rows, hfile]
    rfl
  refine holds_returns_bind
    (holds_unwrapOrCreateSeed_of_seed hopened.sound hseed) ?_
  rintro seed' d' ⟨hseed', hsame⟩
  rw [hseed', hsame]
  refine holds_bind.mpr (holds_random.mpr ⟨fun _ => hopened.sound, ?_⟩)
  dsimp only
  generalize d.random d.drawn 32 = newSalt
  generalize hkey' : env.argon2id seed newSalt.1 .production = newKey
  -- the new salt is staged
  have hdrawn : SameCore d { d with drawn := d.drawn + 1 } := ⟨rfl, rfl, rfl, rfl⟩
  refine holds_bind.mpr ((holds_write (by decide)).mpr
    ⟨fun _ => hdrawn.sound hopened.sound, ?_, fun hfaults => ?_⟩)
  swap
  · exact ⟨fun _ => hdrawn.sound hopened.sound, fun hno => absurd (hfaults.symm.trans hno) nofun⟩
  have hstaged := hdrawn.trans (SameCore.setRow .stagedSalt (by decide) (by decide)
    (some newSalt.1))
  generalize hd₂ : ({ d with drawn := d.drawn + 1 } : Device κ δ).setRow .stagedSalt
    (some newSalt.1) = d₂ at hstaged ⊢
  have hhandle : d₂.handle = some key := by
    rw [← hd₂]
    exact hopened.handle
  -- the file is encrypted under the new key, and the live salt is still the old one
  have hrekey : d₂.rekey newKey = (.ok, d₂.rekeyed newKey content) :=
    rekey_of_keyed hhandle (hstaged.file.trans hfile)
  refine holds_bind.mpr ((holds_steady rfl).mpr ⟨fun _ => hstaged.sound hopened.sound, ?_⟩)
  show Regime.Holds _ _ (if (d₂.rekey newKey).1 ≠ .ok then _ else _) true (d₂.rekey newKey).2
  rw [hrekey, if_neg (not_not.mpr rfl)]
  refine holds_bind.mpr ((holds_steady rfl).mpr ⟨nofun, ?_⟩)
  show Regime.Holds _ _ (if ((d₂.rekeyed newKey content).sql .vacuum).1.1 ≠ .ok then _ else _) true
    ((d₂.rekeyed newKey content).sql .vacuum).2
  rw [vacuum_rekeyed, if_neg (not_not.mpr rfl)]
  -- the live salt becomes the new one
  refine holds_bind.mpr (holds_writeSalt.mpr ⟨nofun, ?_, fun hfaults => ?_⟩)
  swap
  · exact ⟨nofun, fun hno => absurd (hfaults.symm.trans hno) nofun⟩
  have hpromoted : Opened env rows newKey
      ((d₂.rekeyed newKey content).setRow .salt (some newSalt.1)) :=
    opened_of_newSalt hkey'.symm rfl rfl (hstaged.hasSeed hseed) hrows hversion
  have hdeleted := hpromoted.setRow .stagedSalt (by decide) (by decide) none
  refine holds_bind.mpr (holds_delete.mpr ⟨fun _ => hpromoted.sound, ?_⟩)
  refine holds_bind.mpr ((holds_write (by decide)).mpr
    ⟨fun _ => hdeleted.sound, ?_, fun hfaults => ?_⟩)
  · exact .of_isOpen ⟨newKey, hdeleted.setRow .lastRotation (by decide) (by decide) _⟩
  · exact ⟨fun _ => hdeleted.sound, fun hno => absurd (hfaults.symm.trans hno) nofun⟩

theorem holds_rotateIfDue {now : Nat} (h : IsOpen env rows d) :
    (launchRegime env rows faults).Holds (Launched env rows faults)
      (SQLiteStorage.rotateIfDue env .production now) false d := by
  have hsound : Sound env rows d := by
    obtain ⟨key, hopened⟩ := h
    exact hopened.sound
  have hdue : (launchRegime env rows faults).Holds (Returns false fun _ d' => d' = d)
      (DBKey.rotationDue now) false d := by
    refine holds_bind.mpr (holds_read.mpr ⟨fun _ => hsound, ?_⟩)
    dsimp only
    split
    · exact .mk rfl
    · split
      · exact .mk rfl
      · exact .mk rfl
  refine holds_returns_bind hdue ?_
  rintro due d' hsame
  rw [hsame]
  cases due with
  | false => exact .of_isOpen h
  | true =>
    refine holds_bind.mpr (holds_attempt.mpr ((holds_rotateKeyMaterial h).mono ?_))
    rintro r waiting d'' ⟨hwaiting, hclean⟩
    refine ⟨hwaiting, fun hfaults => ?_⟩
    obtain ⟨hsettled, -, hopen⟩ := hclean hfaults
    exact ⟨hsettled, ⟨(), rfl⟩, hopen⟩

/-- A launch on a sound device. -/
theorem holds_bootstrap {now : Nat} (hd : Sound env rows d) :
    (launchRegime env rows faults).Holds (Launched env rows faults)
      (SQLiteStorage.bootstrap env now) false d := by
  refine holds_returns_bind (holds_orphanCheck1 hd) fun h₁ => ?_
  refine holds_returns_bind (holds_orphanCheck2 h₁) fun h₂ => ?_
  refine holds_returns_bind (holds_reconciliation3 h₂) fun {_ d₃} h₃ => ?_
  refine holds_returns_bind (holds_loadStoredParams h₃) ?_
  rintro params d' ⟨hparams, hsame⟩
  rw [hparams, hsame]
  have hopening : ∀ {dbFileExists : Bool}, (launchRegime env rows faults).Holds
      (Launched env rows faults) (do
        SQLiteStorage.openWithRecovery env .production dbFileExists
        SQLiteStorage.migrateOrStartOver env
        SQLiteStorage.rotateIfDue env .production now) false d₃ := by
    intro dbFileExists
    refine (holds_openWithRecovery h₃).bind ?_ ?_
    · rintro _ _ d₄ ⟨rfl, h₄⟩
      exact holds_returns_bind (holds_migrateOrStartOver quiet_launchRegime h₄) holds_rotateIfDue
    · rintro e _ d₄ ⟨rfl, hfaults, h₄⟩
      exact ⟨fun _ => h₄, fun hno => absurd (hfaults.symm.trans hno) nofun⟩
  exact holds_bind.mpr (holds_fileExists h₃ (fun _ => hopening) fun _ => hopening)

end Parts

end Pizzini.App
