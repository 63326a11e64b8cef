import Pizzini.Lib.Runs
import Pizzini.App.AppPasscode
import Pizzini.App.Connection

/-!
# Runs of the passcode code (AppPasscode.swift)

Any sequence of the setters, the readers and the two ways of clearing, each of which the
process may stop before any of its calls on the device. `Standing` is what the calls that
returned promise of a slot, and `Kept` that the slot keeps it.

Reading a slot that is not there writes it from the rows of earlier builds. Clearing a slot
leaves those rows alone, so that a slot which is cleared before they are migrated, or after a
migration that was stopped, is there again when it is read (`stopped_migration_returns`).
`cleared_stays_cleared`: with no such rows at the time of a clearing, everything is kept.
-/

namespace Pizzini.App

open Wire Interruptible

namespace AppPasscode

/-! ## Calls -/

/-- The calls of the passcode code. -/
inductive Call where
  | setPasscode (passcode : String)
  | setDuressPasscode (passcode : String)
  | setDuressPasscodeWith (passcode currentRealPasscode : String)
  | isPasscodeSet
  | isDuressPasscodeSet
  | check (entry : String)
  | clear (slot : Slot)
  | eraseAll

/-- What a call answers. -/
inductive Answer where
  | set (r : Except PasscodeError Unit)
  | isSet (answer : Bool)
  | found (m : Match)
  | done

/-- A program with its result as an answer. -/
def answering {κ α : Type} (p : Boot κ α) (f : α → Answer) : Boot κ Answer := do
  let a ← p
  pure (f a)

variable {κ δ : Type} (env : PasscodeEnv)

/-- The call as a program. -/
def Call.prog : Call → Boot κ Answer
  | setPasscode p => answering (AppPasscode.setPasscode env p) .set
  | setDuressPasscode p => answering (AppPasscode.setDuressPasscode env p) .set
  | setDuressPasscodeWith p r => answering (AppPasscode.setDuressPasscodeWith env p r) .set
  | isPasscodeSet => answering AppPasscode.isPasscodeSet .isSet
  | isDuressPasscodeSet => answering AppPasscode.isDuressPasscodeSet .isSet
  | check entry => answering (AppPasscode.check env entry) .found
  | clear slot => answering (AppPasscode.clear slot) fun _ => .done
  | eraseAll => answering AppPasscode.eraseAll fun _ => .done

/-! ## Standings -/

/-- What is promised of a slot. -/
inductive Standing where
  /-- nothing -/
  | free
  /-- it was cleared -/
  | unset
  /-- it was set -/
  | holds (passcode : String)
deriving DecidableEq

/-- The slot a call sets, and the passcode. -/
def Call.sets : Call → Option (Slot × String)
  | setPasscode p => some (.real, p)
  | setDuressPasscode p => some (.duress, p)
  | setDuressPasscodeWith p _ => some (.duress, p)
  | _ => none

/-- The slots a call clears. -/
def Call.clears : Call → List Slot
  | clear slot => [slot]
  | eraseAll => [.real, .duress]
  | _ => []

/-- The standings while the call runs, and after it was stopped. -/
def Call.during (c : Call) (standing : Slot → Standing) : Slot → Standing := fun slot =>
  if slot ∈ c.clears ∨ c.sets.map Prod.fst = some slot then .free else standing slot

/-- The standings after the call has returned. -/
def Call.after (c : Call) (answer : Answer) (standing : Slot → Standing) : Slot → Standing :=
  fun slot =>
    if slot ∈ c.clears then .unset
    else
      match answer, c.sets with
      | .set (.ok _), some (set, p) => if slot = set then .holds p else standing slot
      | _, _ => standing slot

/-! ## The property -/

variable [DecidableEq κ] [Inhabited δ]

/-- What `check` finds, if nothing stops it. -/
def found (d : Device κ δ) (entry : String) : Except BootError Match :=
  (runClean Device.act (AppPasscode.check env entry) d).1

/-- Whether a slot is set, if nothing stops the reading. -/
def reads (d : Device κ δ) : Slot → Except BootError Bool
  | .real => (runClean Device.act AppPasscode.isPasscodeSet d).1
  | .duress => (runClean Device.act AppPasscode.isDuressPasscodeSet d).1

/-- The match that a slot stands for. -/
def Slot.toMatch : Slot → Match
  | real => .real
  | duress => .duress

/-- The slot reads as unset and matches no entry. -/
structure ReadsUnset (d : Device κ δ) (slot : Slot) : Prop where
  reads : reads d slot = .ok false
  matches_none : ∀ entry, found env d entry ≠ .ok slot.toMatch

/-- The check compares entries with the hash of `passcode` under one salt, and with nothing
else; a duress match goes before a real one. -/
def ComparesWith (d : Device κ δ) (slot : Slot) (passcode : String) : Prop :=
  ∃ salt hash, env.derive (utf8 passcode) salt = some hash ∧ ∀ entry,
    found env d entry = .ok slot.toMatch ↔
      (entry ≠ "" ∧ derived env entry salt = hash.1) ∧
        (slot = .real → found env d entry ≠ .ok .duress)

/-- The device, and what is promised of the slots. -/
structure World (κ δ : Type) where
  device : Device κ δ
  standing : Slot → Standing

/-- The promises are kept. -/
def Kept (w : World κ δ) : Prop := ∀ slot,
  match w.standing slot with
  | .free => True
  | .unset => ReadsUnset env w.device slot
  | .holds p => ComparesWith env w.device slot p

/-- A call, of whose calls on the device at most `n` are executed. No call on the device
fails. -/
def World.step (w : World κ δ) (c : Call) (n : Nat) : World κ δ :=
  let e := run Device.act (c.prog env) (List.replicate n false) w.device
  match e.outcome with
  | some (.ok answer) => ⟨e.state, c.after answer w.standing⟩
  | _ => ⟨e.state, c.during w.standing⟩

/-- Rows of an earlier build that reading the slot migrates. -/
def LegacyUsable (d : Device κ δ) (slot : Slot) : Prop :=
  ∃ hash salt, d.keychain slot.legacyHash = some hash ∧ d.keychain slot.legacySalt = some salt ∧
    hash.length = 32 ∧ salt.length = 32

/-! ## Rows -/

/-- The rows of a slot. -/
def Slot.rows (slot : Slot) : List Account := [slot.account, slot.legacyHash, slot.legacySalt]

/-- The two slots have no row in common. -/
theorem Slot.rows_disjoint {slot slot' : Slot} {a : Account} (h : a ∈ slot.rows)
    (h' : a ∈ slot'.rows) : slot = slot' := by
  cases slot <;> cases slot' <;> first
    | rfl
    | cases a <;> first | exact absurd h (by decide) | exact absurd h' (by decide)

variable {env}

/-- What stands in the Keychain for a slot with a standing. -/
def Row (env : PasscodeEnv) (d : Device κ δ) (slot : Slot) : Standing → Prop
  | .free => True
  | .unset => d.keychain slot.account = none ∧ ¬ LegacyUsable d slot
  | .holds p => p ≠ "" ∧ ∃ salt hash, salt.length = saltLen ∧
      env.derive (utf8 p) salt = some hash ∧ d.keychain slot.account = some (salt ++ hash.1)

/-- The Keychain bears out the standings. -/
def Promised (env : PasscodeEnv) (standing : Slot → Standing) (d : Device κ δ) : Prop :=
  ∀ slot, Row env d slot (standing slot)

variable {d d' : Device κ δ} {slot : Slot} {standing : Slot → Standing} {a : Account}
  {I P : Device κ δ → Prop}

omit [DecidableEq κ] [Inhabited δ] in
theorem legacyUsable_congr (hsame : ∀ a ∈ slot.rows, d'.keychain a = d.keychain a) :
    LegacyUsable d' slot ↔ LegacyUsable d slot := by
  have hhash := hsame slot.legacyHash (by simp [Slot.rows])
  have hsalt := hsame slot.legacySalt (by simp [Slot.rows])
  simp only [LegacyUsable, hhash, hsalt]

omit [DecidableEq κ] [Inhabited δ] in
theorem Row.congr {st : Standing} (h : Row env d slot st)
    (hsame : ∀ a ∈ slot.rows, d'.keychain a = d.keychain a) : Row env d' slot st := by
  have haccount := hsame slot.account (by simp [Slot.rows])
  cases st with
  | free => trivial
  | unset => exact ⟨haccount.trans h.1, fun husable => h.2 ((legacyUsable_congr hsame).mp husable)⟩
  | holds p =>
    obtain ⟨hne, salt, hash, hlen, hhash, hrow⟩ := h
    exact ⟨hne, salt, hash, hlen, hhash, haccount.trans hrow⟩

omit [DecidableEq κ] [Inhabited δ] in
theorem setRow_other {slot' : Slot} (hslot : slot' ≠ slot) (ha : a ∈ slot.rows)
    (row : Option Bytes) : ∀ a' ∈ slot'.rows, (d.setRow a row).keychain a' = d.keychain a' := by
  intro a' ha'
  refine d.setRow_of_ne ?_ row
  rintro rfl
  exact hslot (Slot.rows_disjoint ha' ha)

omit [DecidableEq κ] [Inhabited δ] in
/-- The rows of a slot of which nothing is promised may change. -/
theorem Promised.setRow (h : Promised env standing d) (hfree : standing slot = .free)
    (ha : a ∈ slot.rows) (row : Option Bytes) : Promised env standing (d.setRow a row) := by
  intro slot'
  by_cases hslot : slot' = slot
  · rw [hslot, hfree]
    trivial
  · exact (h slot').congr (setRow_other hslot ha row)

omit [DecidableEq κ] [Inhabited δ] in
/-- Less is promised of one slot. -/
theorem Promised.free (h : Promised env standing d) (slot : Slot) :
    Promised env (Function.update standing slot .free) d := by
  intro slot'
  by_cases hslot : slot' = slot
  · subst hslot
    rw [Function.update_self]
    trivial
  · rw [Function.update_of_ne hslot]
    exact h slot'

omit [DecidableEq κ] [Inhabited δ] in
theorem Promised.update {st : Standing}
    (h : Promised env (Function.update standing slot .free) d) (hrow : Row env d slot st) :
    Promised env (Function.update standing slot st) d := by
  intro slot'
  by_cases hslot : slot' = slot
  · subst hslot
    rwa [Function.update_self]
  · rw [Function.update_of_ne hslot]
    have hother := h slot'
    rwa [Function.update_of_ne hslot] at hother

/-! ## Programs -/

/-- Executions in which nothing fails, and which may be stopped wherever `I` holds. -/
def steady (I : Device κ δ → Prop) : Regime (Op κ) Ans (Device κ δ) Unit where
  act := Device.act
  mon _ _ _ := ()
  may _ _ fails := fails = false
  inv _ d := I d

theorem steady_op {o : Op κ} {Q : Except BootError (Ans o) → Unit → Device κ δ → Prop} :
    (steady I).Holds Q (call o) () d ↔
      I d ∧ Q (.ok (d.act o false).1) () (d.act o false).2 := by
  refine and_congr_right fun _ => ⟨fun h => h false rfl, ?_⟩
  rintro h _ rfl
  exact h

theorem steady_read {Q : Except BootError (Option Bytes) → Unit → Device κ δ → Prop} :
    (steady I).Holds Q (Keychain.read a) () d ↔ I d ∧ Q (.ok (d.keychain a)) () d :=
  steady_op

theorem steady_write {Q : Except BootError Bool → Unit → Device κ δ → Prop} {data : Bytes} :
    (steady I).Holds Q (Keychain.write a data) () d ↔
      I d ∧ Q (.ok true) () (d.setRow a (some data)) :=
  steady_op

theorem steady_delete {Q : Except BootError Bool → Unit → Device κ δ → Prop} :
    (steady I).Holds Q (Keychain.delete a) () d ↔ I d ∧ Q (.ok true) () (d.setRow a none) :=
  steady_op

theorem steady_random {count : Nat}
    {Q : Except BootError (Option (FixedBytes count)) → Unit → Device κ δ → Prop} :
    (steady I).Holds Q (secRandom count) () d ↔
      I d ∧ Q (.ok (some (d.random d.drawn count))) () { d with drawn := d.drawn + 1 } :=
  steady_op

/-- A deletion leaves no row, and else what changes of the row and draws of random bytes
leave. -/
theorem steady_secureDelete (hI : ∀ {d}, P d → I d) (hrow : ∀ {d} row, P d → P (d.setRow a row))
    (hdrawn : ∀ {d : Device κ δ} (n), P d → P { d with drawn := n }) (h : P d) :
    (steady I).Holds (Returns () fun _ d' => P d' ∧ d'.keychain a = none) (secureDelete a) () d := by
  have hdelete : ∀ {d}, P d →
      (steady I).Holds (Returns () fun _ d' => P d' ∧ d'.keychain a = none)
        (Keychain.delete a) () d := by
    intro d hd
    exact steady_delete.mpr ⟨hI hd, .mk ⟨hrow _ hd, Device.setRow_self d a none⟩⟩
  refine holds_bind.mpr (holds_bind.mpr (steady_read.mpr ⟨hI h, ?_⟩))
  cases d.keychain a with
  | none => exact hdelete h
  | some existing =>
    refine holds_bind.mpr (steady_random.mpr ⟨hI h, ?_⟩)
    have hnoise := hdrawn (d.drawn + 1) h
    exact holds_bind.mpr (steady_write.mpr ⟨hI hnoise, hdelete (hrow _ hnoise)⟩)

/-- Reading a slot keeps the promises: it writes only where nothing is promised. -/
theorem steady_readSlot (hI : ∀ {d}, Promised env standing d → I d)
    (h : Promised env standing d) (slot : Slot) :
    (steady I).Holds (Returns () fun _ => Promised env standing)
      (readSlot slot.account slot.legacyHash slot.legacySalt) () d := by
  have haccount : slot.account ∈ slot.rows := by simp [Slot.rows]
  have hhash : slot.legacyHash ∈ slot.rows := by simp [Slot.rows]
  have hsalt : slot.legacySalt ∈ slot.rows := by simp [Slot.rows]
  refine holds_bind.mpr (steady_read.mpr ⟨hI h, ?_⟩)
  dsimp only
  split
  · refine holds_bind.mpr (steady_read.mpr ⟨hI h, ?_⟩)
    exact holds_bind.mpr (steady_read.mpr ⟨hI h, .mk h⟩)
  · next hmiss =>
    refine holds_bind.mpr (steady_read.mpr ⟨hI h, ?_⟩)
    refine holds_bind.mpr (steady_read.mpr ⟨hI h, ?_⟩)
    dsimp only
    split
    · next hash salt hhashRow hsaltRow =>
      split
      · next hlen =>
        -- a slot that is promised cleared has no usable rows, one that is promised set is read
        have hfree : standing slot = .free := by
          have hrow := h slot
          cases hstanding : standing slot with
          | free => rfl
          | unset =>
            rw [hstanding] at hrow
            exact absurd ⟨hash, salt, hhashRow, hsaltRow, hlen⟩ hrow.2
          | holds p =>
            rw [hstanding] at hrow
            obtain ⟨-, salt', hash', hlen', -, hset⟩ := hrow
            have hfull : (salt' ++ hash'.1).length = slotLen := by
              rw [List.length_append, hlen', hash'.2]
              rfl
            rw [hset, Option.filter_some, if_pos (decide_eq_true hfull)] at hmiss
            cases hmiss
        refine holds_bind.mpr (steady_write.mpr ⟨hI h, ?_⟩)
        have hrow : ∀ {a} {d : Device κ δ} row, a ∈ slot.rows → Promised env standing d →
            Promised env standing (d.setRow a row) :=
          fun row ha hd => hd.setRow hfree ha row
        have hwritten := hrow (some (salt ++ hash)) haccount h
        refine holds_returns_bind (steady_secureDelete hI (fun row hd => hrow row hhash hd)
          (fun _ hd => hd) hwritten) fun hd' => ?_
        exact holds_returns_bind (steady_secureDelete hI (fun row hd => hrow row hsalt hd)
          (fun _ hd => hd) hd'.1) fun hd'' => .mk hd''.1
      · exact .mk h
    · exact .mk h

/-- Checking an entry against a slot reads it. -/
theorem steady_verifyPasscode (hI : ∀ {d}, Promised env standing d → I d)
    (h : Promised env standing d) (slot : Slot) (entry : String) :
    (steady I).Holds (Returns () fun _ => Promised env standing)
      (verifyPasscode env slot entry) () d := by
  refine holds_returns_bind (holds_returns_bind (steady_readSlot hI h slot) fun hd => .mk hd)
    fun {material d'} (hd : Promised env standing d') => ?_
  cases material with
  | none => exact .mk hd
  | some material => exact .mk hd

/-- A setter that fails leaves the promises, one that succeeds makes its own. -/
theorem steady_setPasscodeIntoSlot (slot : Slot)
    (hI : ∀ {d}, Promised env (Function.update standing slot .free) d → I d)
    (h : Promised env standing d) (passcode : String) :
    (steady I).Holds
      (Returns () fun r d' =>
        match r with
        | .ok _ => Promised env (Function.update standing slot (.holds passcode)) d'
        | .error _ => Promised env standing d')
      (setPasscodeIntoSlot env passcode slot.account) () d := by
  have haccount : slot.account ∈ slot.rows := by simp [Slot.rows]
  rw [setPasscodeIntoSlot]
  split
  · exact .mk h
  next hne =>
  split
  · exact .mk h
  refine holds_bind.mpr (steady_random.mpr ⟨hI (h.free slot), ?_⟩)
  dsimp only
  split
  · exact .mk h
  · next hash hhash =>
    have hfree := Promised.free (d := { d with drawn := d.drawn + 1 }) h slot
    refine holds_bind.mpr (steady_write.mpr ⟨hI hfree, .mk ?_⟩)
    exact (hfree.setRow (Function.update_self ..) haccount _).update
      ⟨hne, _, hash, (d.random d.drawn 32).2, hhash, Device.setRow_self ..⟩

omit [DecidableEq κ] [Inhabited δ] in
/-- The rows of earlier builds stay as they are when a slot is written. -/
theorem legacyUsable_setRow (slot slot' : Slot) (row : Option Bytes) :
    LegacyUsable (d.setRow slot.account row) slot' ↔ LegacyUsable d slot' := by
  have hhash : slot'.legacyHash ≠ slot.account := by cases slot <;> cases slot' <;> decide
  have hsalt : slot'.legacySalt ≠ slot.account := by cases slot <;> cases slot' <;> decide
  simp only [LegacyUsable, Device.setRow_of_ne _ hhash, Device.setRow_of_ne _ hsalt]

/-- A cleared slot has no row. The rows of earlier builds are what they were. -/
theorem steady_clear {slot : Slot} {usable : Slot → Prop}
    (hI : ∀ {d}, Promised env (Function.update standing slot .free) d → I d)
    (h : Promised env (Function.update standing slot .free) d)
    (husable : ∀ slot, LegacyUsable d slot ↔ usable slot) (hclear : ¬ usable slot) :
    (steady I).Holds
      (Returns () fun _ d' => Promised env (Function.update standing slot .unset) d' ∧
        ∀ slot, LegacyUsable d' slot ↔ usable slot)
      (secureDelete slot.account) () d := by
  have haccount : slot.account ∈ slot.rows := by simp [Slot.rows]
  refine (steady_secureDelete (P := fun d =>
    Promised env (Function.update standing slot .free) d ∧
      ∀ slot, LegacyUsable d slot ↔ usable slot)
    (fun hd => hI hd.1) ?_ (fun _ hd => hd) ⟨h, husable⟩).mono ?_
  · exact fun row hd => ⟨hd.1.setRow (Function.update_self ..) haccount row,
      fun slot' => (legacyUsable_setRow slot slot' row).trans (hd.2 slot')⟩
  · rintro _ _ d' ⟨-, b, rfl, hd', hnone⟩
    exact .mk ⟨hd'.1.update ⟨hnone, fun hd => hclear ((hd'.2 slot).mp hd)⟩, hd'.2⟩

/-! ## Calls -/

/-- The answer of a program, and what holds after it. -/
theorem steady_answering {α : Type} {p : Boot κ α} {f : α → Answer}
    {Q : Answer → Device κ δ → Prop}
    (h : (steady I).Holds (Returns () fun a => Q (f a)) p () d) :
    (steady I).Holds (Returns () Q) (answering p f) () d :=
  holds_returns_bind h fun hd => .mk hd

/-- A setter of a slot: what is promised while it runs and after it. -/
theorem Call.during_sets {c : Call} {p : String} (hsets : c.sets = some (slot, p))
    (hclears : c.clears = []) : c.during standing = Function.update standing slot .free := by
  funext slot'
  simp only [Call.during, hsets, hclears, List.not_mem_nil, false_or, Option.map_some,
    Option.some.injEq, Function.update_apply, eq_comm (a := slot)]

theorem Call.after_sets {c : Call} {p : String} (hsets : c.sets = some (slot, p))
    (hclears : c.clears = []) (r : Except PasscodeError Unit) : c.after (.set r) standing =
      match r with
      | .ok _ => Function.update standing slot (.holds p)
      | .error _ => standing := by
  funext slot'
  cases r with
  | ok => simp only [Call.after, hsets, hclears, List.not_mem_nil, if_false, Function.update_apply]
  | error => simp only [Call.after, hclears, List.not_mem_nil, if_false]

/-- Calls that neither set nor clear a slot. -/
theorem Call.during_reads {c : Call} (hsets : c.sets = none) (hclears : c.clears = []) :
    c.during standing = standing := by
  funext slot
  simp [Call.during, hsets, hclears]

theorem Call.after_reads {c : Call} (hsets : c.sets = none) (hclears : c.clears = [])
    (answer : Answer) : c.after answer standing = standing := by
  funext slot
  simp [Call.after, hsets, hclears]

omit [DecidableEq κ] [Inhabited δ] in
/-- Less is promised. -/
theorem Promised.mono {standing' : Slot → Standing} (h : Promised env standing d)
    (hfree : ∀ slot, standing' slot = .free ∨ standing' slot = standing slot) :
    Promised env standing' d := by
  intro slot
  rcases hfree slot with hslot | hslot
  · rw [hslot]
    trivial
  · rw [hslot]
    exact h slot

/-- A setter, if its program is one of the slot's setter. -/
theorem steady_setter {c : Call} {p : String} {prog : Boot κ (Except PasscodeError Unit)}
    (hsets : c.sets = some (slot, p)) (hclears : c.clears = [])
    (h : (steady (Promised env (Function.update standing slot .free))).Holds
      (Returns () fun r d' =>
        match r with
        | .ok _ => Promised env (Function.update standing slot (.holds p)) d'
        | .error _ => Promised env standing d') prog () d) :
    (steady (Promised env (c.during standing))).Holds
      (Returns () fun answer => Promised env (c.after answer standing)) (answering prog .set) () d := by
  rw [Call.during_sets hsets hclears]
  refine steady_answering (h.mono ?_)
  rintro _ _ d' ⟨-, r, rfl, hd'⟩
  refine .mk ?_
  show Promised env (c.after (.set r) standing) d'
  rw [Call.after_sets hsets hclears]
  cases r with
  | ok => exact hd'
  | error => exact hd'

/-- A reader. -/
theorem steady_reader {c : Call} {α : Type} {prog : Boot κ α} {f : α → Answer}
    (hsets : c.sets = none) (hclears : c.clears = [])
    (h : (steady (Promised env standing)).Holds (Returns () fun _ => Promised env standing)
      prog () d) :
    (steady (Promised env (c.during standing))).Holds
      (Returns () fun answer => Promised env (c.after answer standing)) (answering prog f) () d := by
  rw [Call.during_reads hsets hclears]
  simp only [Call.after_reads hsets hclears]
  exact steady_answering h

/-- The program of `setDuressPasscode` is a setter's. -/
theorem steady_setDuressPasscode
    (h : Promised env standing d) (passcode : String) :
    (steady (Promised env (Function.update standing .duress .free))).Holds
      (Returns () fun r d' =>
        match r with
        | .ok _ => Promised env (Function.update standing .duress (.holds passcode)) d'
        | .error _ => Promised env standing d') (setDuressPasscode env passcode) () d := by
  refine holds_returns_bind (steady_verifyPasscode (fun hd => hd.free .duress) h .real passcode)
    fun {same d'} hd => ?_
  split
  · exact .mk hd
  · exact steady_setPasscodeIntoSlot .duress id hd passcode

/-- Every call keeps the promises while it runs, and makes its own when it returns. -/
theorem steady_prog (c : Call) (h : Promised env standing d)
    (hclear : ∀ slot ∈ c.clears, ¬ LegacyUsable d slot) :
    (steady (Promised env (c.during standing))).Holds
      (Returns () fun answer => Promised env (c.after answer standing)) (c.prog env) () d := by
  cases c with
  | setPasscode p => exact steady_setter rfl rfl (steady_setPasscodeIntoSlot .real id h p)
  | setDuressPasscode p => exact steady_setter rfl rfl (steady_setDuressPasscode h p)
  | setDuressPasscodeWith p r =>
    refine steady_setter rfl rfl ?_
    refine holds_returns_bind (steady_verifyPasscode (fun hd => hd.free .duress) h .real r)
      fun {verified d'} hd => ?_
    split
    · exact .mk hd
    split
    · exact .mk hd
    · exact steady_setDuressPasscode hd p
  | isPasscodeSet =>
    exact steady_reader rfl rfl
      (holds_returns_bind (steady_readSlot id h .real) fun hd => .mk hd)
  | isDuressPasscodeSet =>
    exact steady_reader rfl rfl
      (holds_returns_bind (steady_readSlot id h .duress) fun hd => .mk hd)
  | check entry =>
    have hmaterial : ∀ {d : Device κ δ}, Promised env standing d → ∀ slot,
        (steady (Promised env standing)).Holds (Returns () fun _ => Promised env standing)
          (slotMaterial slot) () d := by
      intro d hd slot
      refine holds_returns_bind (holds_returns_bind (steady_readSlot id hd slot)
        fun hd' => .mk hd') fun {material d'} (hd' : Promised env standing d') => ?_
      cases material with
      | none => exact .mk hd'
      | some material => exact .mk hd'
    refine steady_reader rfl rfl ?_
    refine holds_returns_bind (hmaterial h .real) fun hd => ?_
    refine holds_returns_bind (hmaterial hd .duress) fun hd' => ?_
    split
    · exact .mk hd'
    split
    · exact .mk hd'
    · exact .mk hd'
  | clear slot =>
    have hduring : (Call.clear slot).during standing = Function.update standing slot .free := by
      funext slot'
      simp [Call.during, Call.clears, Call.sets, Function.update_apply]
    have hafter : ∀ answer, (Call.clear slot).after answer standing =
        Function.update standing slot .unset := by
      intro answer
      funext slot'
      simp only [Call.after, Call.clears, List.mem_singleton, Function.update_apply, Call.sets]
    rw [hduring]
    simp only [hafter]
    refine steady_answering (holds_returns_bind (steady_clear id (h.free slot)
      (fun _ => Iff.rfl) (hclear slot (by simp [Call.clears]))) fun hd => .mk hd.1)
  | eraseAll =>
    have hduring : Call.eraseAll.during standing = fun _ => .free := by
      funext slot
      cases slot <;> rfl
    have hafter : ∀ answer, Call.eraseAll.after answer standing = fun _ => .unset := by
      intro answer
      funext slot
      cases slot <;> rfl
    rw [hduring]
    simp only [hafter]
    have husable : ∀ slot, ¬ LegacyUsable d slot :=
      fun slot => hclear slot (by cases slot <;> simp [Call.clears])
    have hfirst : Promised env (Function.update (fun _ => Standing.free) Slot.real .free) d :=
      h.mono fun slot => .inl (by cases slot <;> rfl)
    have hboth : Function.update (Function.update (fun _ => Standing.free) Slot.real .unset)
        Slot.duress .unset = fun _ => .unset := by
      funext slot
      cases slot <;> rfl
    refine steady_answering ?_
    refine holds_returns_bind (steady_clear (fun _ _ => trivial) hfirst (fun _ => Iff.rfl)
      (husable .real)) fun {_ d'} hd => ?_
    refine holds_returns_bind (steady_clear (fun _ _ => trivial) (hd.1.free .duress) hd.2
      (husable .duress)) fun hd' => ?_
    rw [hboth] at hd'
    exact .mk hd'.1

/-! ## What reading finds -/

section Reading

variable {salt hash : Bytes}

theorem runClean_read : runClean Device.act (Keychain.read a) d = (.ok (d.keychain a), d) := rfl

/-- A slot that is there is read as it is. -/
theorem runClean_readSlot_hit {data : Bytes} (hrow : d.keychain slot.account = some data)
    (hlen : data.length = slotLen) :
    runClean Device.act (readSlot slot.account slot.legacyHash slot.legacySalt) d =
      (.ok (some data), d) := by
  rw [readSlot, runClean_bind_ok runClean_read, hrow, Option.filter_some,
    if_pos (decide_eq_true hlen)]
  dsimp only
  rw [runClean_bind_ok runClean_read, runClean_bind_ok runClean_read]
  rfl

/-- A slot that is not there, with nothing to migrate. -/
theorem runClean_readSlot_miss (hrow : d.keychain slot.account = none)
    (husable : ¬ LegacyUsable d slot) :
    runClean Device.act (readSlot slot.account slot.legacyHash slot.legacySalt) d =
      (.ok none, d) := by
  rw [readSlot, runClean_bind_ok runClean_read, hrow, Option.filter_none]
  dsimp only
  rw [migrateLegacySlot, runClean_bind_ok runClean_read, runClean_bind_ok runClean_read]
  split
  · next hash salt hhash hsalt =>
    rw [if_neg fun hlen => husable ⟨hash, salt, hhash, hsalt, hlen⟩]
    rfl
  · rfl

/-- The calls that reading a slot makes: the slot's row is written, and the rows of earlier
builds are overwritten and deleted. -/
def Op.ReadsSlot (slot : Slot) : Op κ → Prop
  | .write a data => a = slot.account ∨ a ∈ slot.rows ∧ data.length = slotLen
  | .delete a => a ∈ slot.rows
  | .read _ | .random _ => True
  | _ => False

omit [DecidableEq κ] in
theorem secureDelete_only {slot : Slot} (ha : a ∈ slot.rows) :
    (secureDelete a : Boot κ _).Only (Op.ReadsSlot slot) := by
  refine Prog.Only.bind (.bind (.op trivial) fun row => ?_) fun _ => .op ha
  cases row with
  | none => exact .pure _
  | some existing =>
    refine Prog.Only.bind (.op trivial) fun drawn => ?_
    cases drawn with
    | none => exact .pure _
    | some noise => exact Prog.Only.bind (.op (.inr ⟨ha, noise.2⟩)) fun _ => .pure _

omit [DecidableEq κ] in
theorem readSlot_only (slot : Slot) :
    (readSlot slot.account slot.legacyHash slot.legacySalt : Boot κ _).Only
      (Op.ReadsSlot slot) := by
  have hread : ∀ a, (Keychain.read a : Boot κ _).Only (Op.ReadsSlot slot) :=
    fun a => .op trivial
  refine Prog.Only.bind (hread _) fun row => ?_
  split
  · exact .bind (hread _) fun _ => .bind (hread _) fun _ => .pure _
  · refine Prog.Only.bind (hread _) fun hash => .bind (hread _) fun salt => ?_
    split
    · split
      · refine Prog.Only.bind (.op (.inl rfl)) fun written => ?_
        split
        · exact .bind (secureDelete_only (by simp [Slot.rows])) fun _ =>
            .bind (secureDelete_only (by simp [Slot.rows])) fun _ => .pure _
        · exact .pure _
      · exact .pure _
    · exact .pure _

/-- What a slot's row is taken apart into; without a row, the dummies. -/
def materialOf : Option Bytes → Bytes × Bytes × Bool
  | some data => (data.take saltLen, data.drop saltLen, true)
  | none => (List.replicate 32 0, List.replicate 32 0, false)

theorem runClean_readSlotSplit {row : Option Bytes}
    (h : runClean Device.act (readSlot slot.account slot.legacyHash slot.legacySalt) d =
      (.ok row, d')) :
    runClean Device.act (readSlotSplit slot) d =
      (.ok (row.map fun data => (data.take saltLen, data.drop saltLen)), d') := by
  rw [readSlotSplit, runClean_bind_ok h]
  rfl

theorem runClean_slotMaterial {row : Option Bytes}
    (h : runClean Device.act (readSlot slot.account slot.legacyHash slot.legacySalt) d =
      (.ok row, d')) :
    runClean Device.act (slotMaterial slot) d = (.ok (materialOf row), d') := by
  rw [slotMaterial, runClean_bind_ok (runClean_readSlotSplit h)]
  cases row with
  | none => rfl
  | some data => rfl

/-- Reading a slot gives an answer, and leaves the other slot's rows alone. -/
theorem exists_slotMaterial (d : Device κ δ) (slot : Slot) :
    ∃ m d', runClean Device.act (slotMaterial slot) d = (.ok m, d') ∧
      ∀ a ∉ slot.rows, d'.keychain a = d.keychain a := by
  have hnone : Promised ⟨fun _ _ => none, fun _ => 0⟩ (fun _ => .free) d := fun _ => trivial
  obtain ⟨-, -, row, hrow, -⟩ := (steady_readSlot (I := fun _ => True) (fun _ => trivial) hnone
    slot).runClean fun _ _ => rfl
  refine ⟨_, _, runClean_slotMaterial (Prod.ext hrow rfl), fun a ha => ?_⟩
  refine (readSlot_only slot).runClean_frame Device.act (fun d => d.keychain a)
    (fun o d ho => ?_) d
  cases o with
  | write b _ =>
    refine d.setRow_of_ne ?_ _
    rintro rfl
    rcases ho with rfl | ⟨ho, -⟩
    · exact ha (by simp [Slot.rows])
    · exact ha ho
  | delete b =>
    refine d.setRow_of_ne ?_ _
    rintro rfl
    exact ha ho
  | read | random => rfl
  | _ => exact absurd ho id

/-- The material of a slot that is promised. -/
theorem Row.material_unset (h : Row env d slot .unset) :
    runClean Device.act (slotMaterial slot) d = (.ok (materialOf none), d) :=
  runClean_slotMaterial (runClean_readSlot_miss h.1 h.2)

/-- A slot with a salt and a hash in its row is read as it is. -/
theorem readSlot_of_row {hash : FixedBytes 32} (hlen : salt.length = saltLen)
    (hrow : d.keychain slot.account = some (salt ++ hash.1)) :
    runClean Device.act (readSlot slot.account slot.legacyHash slot.legacySalt) d =
      (.ok (some (salt ++ hash.1)), d) := by
  refine runClean_readSlot_hit hrow ?_
  rw [List.length_append, hlen, hash.2]
  rfl

theorem material_of_row {hash : FixedBytes 32} (hlen : salt.length = saltLen)
    (hrow : d.keychain slot.account = some (salt ++ hash.1)) :
    runClean Device.act (slotMaterial slot) d = (.ok (salt, hash.1, true), d) := by
  rw [runClean_slotMaterial (readSlot_of_row hlen hrow), materialOf, List.take_left' hlen,
    List.drop_left' hlen]

theorem split_of_row {hash : FixedBytes 32} (hlen : salt.length = saltLen)
    (hrow : d.keychain slot.account = some (salt ++ hash.1)) :
    runClean Device.act (readSlotSplit slot) d = (.ok (some (salt, hash.1)), d) := by
  rw [runClean_readSlotSplit (readSlot_of_row hlen hrow), Option.map_some, List.take_left' hlen,
    List.drop_left' hlen]

/-- What `check` finds, from the material of the slots. -/
theorem found_eq {d' d'' : Device κ δ} {real duress : Bytes × Bytes × Bool}
    (hreal : runClean Device.act (slotMaterial .real) d = (.ok real, d'))
    (hduress : runClean Device.act (slotMaterial .duress) d' = (.ok duress, d''))
    (entry : String) :
    found env d entry = .ok (if hits env entry duress then .duress
      else if hits env entry real then .real else .neither) := by
  rw [found, AppPasscode.check, runClean_bind_ok hreal, runClean_bind_ok hduress]
  split
  · rfl
  split <;> rfl

theorem hits_set {entry : String} :
    hits env entry (salt, hash, true) = true ↔ entry ≠ "" ∧ derived env entry salt = hash := by
  simp [hits, and_comm]

theorem hits_unset {entry : String} : hits env entry (materialOf none) = false := by
  simp [hits, materialOf]

/-- The real slot is checked first, so its material is what stands in the Keychain. -/
theorem exists_found_real (env : PasscodeEnv) (d : Device κ δ) {real : Bytes × Bytes × Bool}
    (hreal : runClean Device.act (slotMaterial .real) d = (.ok real, d)) :
    ∃ duress, ∀ entry, found env d entry = .ok (if hits env entry duress then .duress
      else if hits env entry real then .real else .neither) := by
  obtain ⟨duress, d', hduress, -⟩ := exists_slotMaterial d .duress
  exact ⟨duress, found_eq hreal hduress⟩

/-- Reading the real slot leaves the rows of the duress slot alone. -/
theorem exists_found_duress (env : PasscodeEnv) {duress : Bytes × Bytes × Bool}
    (hduress : ∀ {d' : Device κ δ},
      (∀ a ∈ Slot.duress.rows, d'.keychain a = d.keychain a) →
        runClean Device.act (slotMaterial .duress) d' = (.ok duress, d')) :
    ∃ real, ∀ entry, found env d entry = .ok (if hits env entry duress then .duress
      else if hits env entry real then .real else .neither) := by
  obtain ⟨real, d', hreal, hframe⟩ := exists_slotMaterial d .real
  refine ⟨real, found_eq hreal (hduress fun a ha => hframe a fun ha' => ?_)⟩
  exact absurd (Slot.rows_disjoint ha ha') (by decide)

theorem Row.readsUnset (h : Row env d slot .unset) : ReadsUnset env d slot where
  reads := by
    have hmiss := runClean_readSlot_miss h.1 h.2
    cases slot with
    | real =>
      have hrun : runClean Device.act isPasscodeSet d = (.ok false, d) := runClean_bind_ok hmiss
      exact congrArg Prod.fst hrun
    | duress =>
      have hrun : runClean Device.act isDuressPasscodeSet d = (.ok false, d) :=
        runClean_bind_ok hmiss
      exact congrArg Prod.fst hrun
  matches_none := by
    intro entry
    cases slot with
    | real =>
      obtain ⟨duress, hfound⟩ := exists_found_real env d h.material_unset
      rw [hfound, hits_unset]
      split <;> simp [Slot.toMatch]
    | duress =>
      obtain ⟨real, hfound⟩ := exists_found_duress env
        fun hd' => Row.material_unset (h.congr hd')
      rw [hfound, hits_unset]
      split
      · contradiction
      split <;> simp [Slot.toMatch]

theorem Row.comparesWith {p : String} (h : Row env d slot (.holds p)) :
    ComparesWith env d slot p := by
  obtain ⟨-, salt, hash, hlen, hhash, hrow⟩ := h
  refine ⟨salt, hash, hhash, fun entry => ?_⟩
  rw [← hits_set]
  cases slot with
  | real =>
    obtain ⟨duress, hfound⟩ := exists_found_real env d (material_of_row hlen hrow)
    rw [hfound]
    cases hits env entry duress <;> cases hits env entry (salt, hash.1, true) <;>
      simp [Slot.toMatch]
  | duress =>
    obtain ⟨real, hfound⟩ := exists_found_duress env
      fun hsame => material_of_row hlen ((hsame _ (by simp [Slot.rows])).trans hrow)
    rw [hfound]
    cases hits env entry (salt, hash.1, true) <;> cases hits env entry real <;>
      simp [Slot.toMatch]

/-- The promises are kept. -/
theorem Promised.kept (h : Promised env standing d) : Kept env ⟨d, standing⟩ := by
  intro slot
  have hrow := h slot
  show match standing slot with
    | .free => True
    | .unset => ReadsUnset env d slot
    | .holds p => ComparesWith env d slot p
  cases hstanding : standing slot with
  | free => trivial
  | unset => exact Row.readsUnset (hstanding ▸ hrow)
  | holds p => exact Row.comparesWith (hstanding ▸ hrow)

end Reading

/-! ## Runs -/

theorem Promised.step {w : World κ δ} (h : Promised env w.standing w.device) {c : Call}
    (hclear : ∀ slot ∈ c.clears, ¬ LegacyUsable w.device slot) (n : Nat) :
    Promised env (w.step env c n).standing (w.step env c n).device := by
  have hrun := (steady_prog c h hclear).run (List.replicate n false)
    (Regime.allowed_replicate (fun _ _ => rfl) _ _ _ _)
  cases hout : (run Device.act (c.prog env) (List.replicate n false) w.device).outcome with
  | none =>
    have hstopped : (run (steady (Promised env (c.during w.standing))).act (c.prog env)
        (List.replicate n false) w.device).outcome = none := hout
    rw [hstopped] at hrun
    simp only [World.step, hout]
    exact hrun
  | some r =>
    have hended : (run (steady (Promised env (c.during w.standing))).act (c.prog env)
        (List.replicate n false) w.device).outcome = some r := hout
    rw [hended] at hrun
    obtain ⟨-, answer, rfl, hd⟩ := hrun
    simp only [World.step, hout]
    exact hd

/-- In a run in which no slot is cleared while rows of an earlier build could be migrated into
it, a cleared slot stays cleared, and a set one is compared with its passcode only. -/
theorem cleared_stays_cleared {d : Device κ δ} {w : World κ δ}
    (hrun : Runs.Reach (fun w (e : Call × Nat) w' => w' = w.step env e.1 e.2)
      (fun w e => ∀ slot ∈ e.1.clears, ¬ LegacyUsable w.device slot)
      ⟨d, fun _ => .free⟩ w) : Kept env w := by
  refine (hrun.invariant (fun w => Promised env w.standing w.device) ?_ fun _ => trivial).kept
  rintro w e _ h hclear rfl
  exact h.step hclear e.2

/-! ## A stopped migration -/

/-- Argon2id on one passcode and the others. -/
def sampleEnv : PasscodeEnv where
  derive passphrase _ :=
    some (if passphrase = utf8 "123456" then FixedBytes.replicate 32 9
      else FixedBytes.replicate 32 1)
  characterCount := String.length

/-- A device without a database. -/
def sampleDevice (keychain : Account → Option Bytes) : Device Unit Unit where
  file := .absent
  keychain := keychain
  enclave := none
  handle := none
  random _ count := FixedBytes.replicate count 7
  drawn := 0
  enclaveKeys := 0

/-- A passcode is set and cleared on a new device. -/
theorem cleared_stays_cleared_fresh :
    Kept sampleEnv (((World.mk (sampleDevice fun _ => none) fun _ => .free).step sampleEnv
      (.setPasscode "123456") 9).step sampleEnv (.clear .real) 9) := by
  refine cleared_stays_cleared (d := sampleDevice fun _ => none)
    ((Runs.Reach.refl.snoc (e := (.setPasscode "123456", 9)) rfl nofun).snoc
      (e := (.clear .real, 9)) rfl ?_)
  rintro slot - ⟨hash, salt, hhash, -⟩
  have hnone : ∀ slot : Slot, ((World.mk (sampleDevice fun _ => none) fun _ => .free).step sampleEnv
      (.setPasscode "123456") 9).device.keychain slot.legacyHash = none := by
    intro slot
    cases slot <;> decide +kernel
  exact absurd (hhash.symm.trans (hnone slot)) nofun

/-- The rows an earlier build wrote for the passcode 123456. -/
def legacyRows : Account → Option Bytes
  | .legacyRealHash => some (List.replicate 32 9)
  | .legacyRealSalt => some (List.replicate 32 5)
  | _ => none

/-- The process ends when the migrated slot is written, before the rows of the earlier build are
deleted. The next process clears the passcode: it is still set. -/
theorem stopped_migration_returns :
    ¬ Kept sampleEnv (((World.mk (sampleDevice legacyRows) fun _ => .free).step sampleEnv
      .isPasscodeSet 4).step sampleEnv (.clear .real) 9) := by
  intro h
  have hunset : (((World.mk (sampleDevice legacyRows) fun _ => .free).step sampleEnv
      .isPasscodeSet 4).step sampleEnv (.clear .real) 9).standing .real = .unset := by
    decide +kernel
  have hreal := h .real
  rw [hunset] at hreal
  exact absurd hreal.reads (by decide +kernel)

end AppPasscode

end Pizzini.App
