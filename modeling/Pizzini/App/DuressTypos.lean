import Pizzini.App.PasscodeRuns

/-!
# Typos of the real passcode (AppPasscode.swift:115–225)

Setting a duress passcode asks for the real one and refuses what is within a typo of it.
Setting a real passcode asks for nothing: only hashes of the duress passcode are there to
compare with, and nothing compares the two (`changed_passcode_is_duress`).
`typo_not_duress`: with the rule kept by whoever changes the real passcode, no typo of it is
taken for the duress passcode.
-/

namespace Pizzini.App

open Wire Interruptible

namespace AppPasscode

variable {κ δ : Type} (env : PasscodeEnv)

/-- No other entry has the hash of this one, under any salt. -/
def Unambiguous (passcode : String) : Prop :=
  ∀ salt entry, derived env entry salt = derived env passcode salt → entry = passcode

/-! ## Rows of earlier builds -/

/-- The calls of the passcode code on the device: they write a slot, or noise, or delete. -/
def Op.KeepsLegacy : Op κ → Prop
  | .write a data => (∃ slot : Slot, a = slot.account) ∨ data.length = slotLen
  | .delete _ | .read _ | .random _ => True
  | _ => False

theorem Op.ReadsSlot.keepsLegacy {slot : Slot} {o : Op κ} (h : Op.ReadsSlot slot o) :
    Op.KeepsLegacy o := by
  cases o with
  | write a data => exact h.imp (fun ha => ⟨slot, ha⟩) And.right
  | delete | read | random => trivial
  | _ => exact absurd h id

theorem verifyPasscode_only (slot : Slot) (entry : String) :
    (verifyPasscode env slot entry : Boot κ _).Only Op.KeepsLegacy := by
  have hread := (readSlot_only (κ := κ) slot).mono fun _ => Op.ReadsSlot.keepsLegacy
  refine Prog.Only.bind (.bind hread fun _ => .pure _) fun material => ?_
  cases material with
  | none => exact .pure _
  | some => exact .pure _

theorem setPasscodeIntoSlot_only (passcode : String) (slot : Slot) :
    (setPasscodeIntoSlot env passcode slot.account : Boot κ _).Only Op.KeepsLegacy := by
  rw [setPasscodeIntoSlot]
  split
  · exact .pure _
  split
  · exact .pure _
  refine Prog.Only.bind (.op trivial) fun drawn => ?_
  split
  · exact .pure _
  split
  · exact .pure _
  · exact .bind (.op (.inl ⟨slot, rfl⟩)) fun _ => .pure _

theorem Call.prog_only (c : Call) : (c.prog env : Boot κ _).Only Op.KeepsLegacy := by
  have hread : ∀ slot : Slot,
      (readSlot slot.account slot.legacyHash slot.legacySalt : Boot κ _).Only Op.KeepsLegacy :=
    fun slot => (readSlot_only slot).mono fun _ => Op.ReadsSlot.keepsLegacy
  have hclear : ∀ slot : Slot, (secureDelete slot.account : Boot κ _).Only Op.KeepsLegacy :=
    fun slot => (secureDelete_only (by simp [Slot.rows] : slot.account ∈ slot.rows)).mono
      fun _ => Op.ReadsSlot.keepsLegacy
  have hduress : ∀ p, (AppPasscode.setDuressPasscode env p : Boot κ _).Only Op.KeepsLegacy := by
    intro p
    refine Prog.Only.bind (verifyPasscode_only env .real p) fun same => ?_
    split
    · exact .pure _
    · exact setPasscodeIntoSlot_only env p .duress
  have hmaterial : ∀ slot, (slotMaterial slot : Boot κ _).Only Op.KeepsLegacy := by
    intro slot
    refine Prog.Only.bind (.bind (hread slot) fun _ => .pure _) fun material => ?_
    cases material with
    | none => exact .pure _
    | some => exact .pure _
  cases c with
  | setPasscode p => exact .bind (setPasscodeIntoSlot_only env p .real) fun _ => .pure _
  | setDuressPasscode p => exact .bind (hduress p) fun _ => .pure _
  | setDuressPasscodeWith p r =>
    refine .bind (.bind (verifyPasscode_only env .real r) fun verified => ?_) fun _ => .pure _
    split
    · exact .pure _
    split
    · exact .pure _
    · exact hduress p
  | isPasscodeSet => exact .bind (.bind (hread .real) fun _ => .pure _) fun _ => .pure _
  | isDuressPasscodeSet => exact .bind (.bind (hread .duress) fun _ => .pure _) fun _ => .pure _
  | check entry =>
    refine .bind (.bind (hmaterial .real) fun _ => .bind (hmaterial .duress) fun duress => ?_)
      fun _ => .pure _
    split
    · exact .pure _
    split
    · exact .pure _
    · exact .pure _
  | clear slot => exact .bind (.bind (hclear slot) fun _ => .pure _) fun _ => .pure _
  | eraseAll =>
    exact .bind (.bind (hclear .real) fun _ => .bind (hclear .duress) fun _ => .pure _)
      fun _ => .pure _

variable [DecidableEq κ] [Inhabited δ] {env} {w : World κ δ}

omit [DecidableEq κ] [Inhabited δ] in
/-- A row that is no hash and no salt makes nothing usable. -/
theorem legacyUsable_of_setRow {d : Device κ δ} {a : Account} {row : Option Bytes} {slot : Slot}
    (hrow : ∀ data, row = some data → data.length ≠ 32)
    (h : LegacyUsable (d.setRow a row) slot) : LegacyUsable d slot := by
  obtain ⟨hash, salt, hhash, hsalt, hlenHash, hlenSalt⟩ := h
  have hkept : ∀ {a' data}, (d.setRow a row).keychain a' = some data → data.length = 32 →
      d.keychain a' = some data := by
    intro a' data hdata hlen
    by_cases ha : a' = a
    · subst ha
      rw [Device.setRow_self] at hdata
      exact absurd hlen (hrow data hdata)
    · rwa [Device.setRow_of_ne _ ha] at hdata
  exact ⟨hash, salt, hkept hhash hlenHash, hkept hsalt hlenSalt, hlenHash, hlenSalt⟩

/-- No call brings back rows of an earlier build. -/
theorem noLegacy_step (h : ∀ slot, ¬ LegacyUsable w.device slot) (c : Call) (n : Nat) :
    ∀ slot, ¬ LegacyUsable (w.step env c n).device slot := by
  have hact : ∀ (o : Op κ) f (d : Device κ δ), Op.KeepsLegacy o →
      (∀ slot, ¬ LegacyUsable d slot) → ∀ slot, ¬ LegacyUsable (d.act o f).2 slot := by
    intro o f d ho hd slot husable
    refine hd slot ?_
    cases o with
    | write a data =>
      cases f with
      | true => exact husable
      | false =>
        rcases ho with ⟨slot', rfl⟩ | hlen
        · exact (legacyUsable_setRow slot' slot _).mp husable
        · refine legacyUsable_of_setRow (fun data' hdata => ?_) husable
          cases hdata
          rw [hlen]
          decide
    | delete a =>
      cases f with
      | true => exact husable
      | false => exact legacyUsable_of_setRow (fun _ hdata => by cases hdata) husable
    | read => exact husable
    | random count =>
      cases f with
      | true => exact husable
      | false => exact husable
    | _ => exact absurd ho id
  have hstate := (c.prog_only env).run_keeps hact (List.replicate n false) h
  have hdevice : (w.step env c n).device =
      (run Device.act (c.prog env) (List.replicate n false) w.device).state := by
    simp only [World.step]
    split <;> rfl
  rwa [hdevice]

/-! ## The confusability rule -/

/-- A call as the views issue it: it runs to its end, what is set is in `known`, and a new real
passcode that is long enough is no typo away from the duress passcode that is set. -/
def Careful (env : PasscodeEnv) (known : String → Prop) (w : World κ δ) (e : Call × Nat) : Prop :=
  (run Device.act (e.1.prog env) (List.replicate e.2 false) w.device).outcome ≠ none ∧
    match e.1 with
    | .setPasscode p => known p ∧ (minLength ≤ env.characterCount p →
        ∀ q, w.standing .duress = .holds q → duressTooSimilarToReal p q = false)
    | .setDuressPasscode _ => False
    | .setDuressPasscodeWith q _ => known q
    | _ => True

/-- The passcodes are apart, and nothing else is in the Keychain. -/
structure Guarded (env : PasscodeEnv) (known : String → Prop) (w : World κ δ) : Prop where
  promised : Promised env w.standing w.device
  noLegacy : ∀ slot, ¬ LegacyUsable w.device slot
  known : ∀ slot p, w.standing slot = .holds p → known p
  apart : ∀ p q, w.standing .real = .holds p → w.standing .duress = .holds q →
    duressTooSimilarToReal p q = false

/-- A setter that succeeds sets a passcode that is long enough. -/
theorem setPasscodeIntoSlot_short {p : String} (hshort : env.characterCount p < minLength)
    (slot : Slot) (d : Device κ δ) :
    ∃ e, runClean Device.act (setPasscodeIntoSlot env p slot.account) d = (.ok (.error e), d) := by
  rw [setPasscodeIntoSlot, if_pos hshort]
  split <;> exact ⟨_, rfl⟩

/-- An entry that verifies against the real passcode is the real passcode. -/
theorem runClean_verifyPasscode {d : Device κ δ} {p : String} (hrow : Row env d .real (.holds p))
    (hp : Unambiguous env p) (entry : String) :
    ∃ verified, runClean Device.act (verifyPasscode env .real entry) d = (.ok verified, d) ∧
      (verified = true → entry = p) := by
  obtain ⟨-, salt, hash, hlen, hhash, hset⟩ := hrow
  refine ⟨verify env entry salt hash.1, ?_, fun hverified => ?_⟩
  · rw [verifyPasscode, runClean_bind_ok (split_of_row hlen hset)]
    rfl
  · rw [verify] at hverified
    split at hverified
    · cases hverified
    split at hverified
    · cases hverified
    · next x hx =>
      refine hp salt entry ?_
      rw [derived, derived, hx, hhash]
      exact of_decide_eq_true hverified

/-- A duress passcode that was accepted is no typo away from the real one. -/
theorem runClean_setDuressPasscodeWith {d d' : Device κ δ} {p q r : String}
    (hrow : Row env d .real (.holds p)) (hp : Unambiguous env p)
    (h : runClean Device.act (setDuressPasscodeWith env q r) d = (.ok (.ok ()), d')) :
    duressTooSimilarToReal p q = false := by
  obtain ⟨verified, hverify, hreal⟩ := runClean_verifyPasscode hrow hp r
  rw [setDuressPasscodeWith, runClean_bind_ok hverify] at h
  cases verified with
  | false => cases h
  | true =>
    rw [hreal rfl] at h
    cases hsimilar : duressTooSimilarToReal p q with
    | false => rfl
    | true =>
      rw [hsimilar] at h
      cases h

/-- The standing of a slot after a call that ran to its end: cleared, set, or what it was. -/
theorem after_cases {c : Call} {answer : Answer} {standing : Slot → Standing} {slot : Slot}
    {p : String} (h : c.after answer standing slot = .holds p) :
    standing slot = .holds p ∨ c.sets = some (slot, p) ∧ answer = .set (.ok ()) := by
  unfold Call.after at h
  by_cases hclears : slot ∈ c.clears
  · rw [if_pos hclears] at h
    cases h
  rw [if_neg hclears] at h
  cases hsets : c.sets with
  | none =>
    rw [hsets] at h
    exact .inl (by cases answer with | set r => cases r <;> exact h | _ => exact h)
  | some set =>
    rw [hsets] at h
    cases answer with
    | set r =>
      cases r with
      | error => exact .inl h
      | ok =>
        dsimp only at h
        split at h
        · next hslot =>
          cases h
          exact .inr ⟨by rw [hslot], rfl⟩
        · exact .inl h
    | _ => exact .inl h

/-- What an answered program computed. -/
theorem runClean_answering {α : Type} {p : Boot κ α} {f : α → Answer} {d d' : Device κ δ}
    {answer : Answer} (h : runClean Device.act (answering p f) d = (.ok answer, d')) :
    ∃ a, runClean Device.act p d = (.ok a, d') ∧ answer = f a := by
  cases hp : runClean Device.act p d with
  | mk r d₁ =>
    cases r with
    | ok a =>
      rw [answering, runClean_bind_ok hp] at h
      cases h
      exact ⟨a, rfl, rfl⟩
    | error e =>
      rw [answering, runClean_bind_error hp] at h
      cases h

/-- A call that ran to its end, and its answer. -/
theorem exists_answer (h : Promised env w.standing w.device) (hnone : ∀ slot, ¬ LegacyUsable w.device slot)
    {c : Call} {n : Nat}
    (hends : (run Device.act (c.prog env) (List.replicate n false) w.device).outcome ≠ none) :
    ∃ answer, runClean Device.act (c.prog env) w.device =
        (.ok answer, (w.step env c n).device) ∧
      (w.step env c n).standing = c.after answer w.standing := by
  obtain ⟨r, hr⟩ := Option.ne_none_iff_exists'.mp hends
  have hclean := runClean_of_run hr
  have hholds := (steady_prog c h fun slot _ => hnone slot).runClean fun _ _ => rfl
  obtain ⟨-, -, answer, hanswer, -⟩ := hholds
  have hok : r = .ok answer := (congrArg Prod.fst hclean).symm.trans hanswer
  subst hok
  refine ⟨answer, ?_, ?_⟩
  · rw [hclean]
    simp only [World.step, hr]
  · simp only [World.step, hr]

variable {known : String → Prop}

theorem Guarded.step (h : Guarded env known w) (hknown : ∀ p, known p → Unambiguous env p)
    {e : Call × Nat} (hcareful : Careful env known w e) :
    Guarded env known (w.step env e.1 e.2) := by
  obtain ⟨c, n⟩ := e
  obtain ⟨hends, hrule⟩ := hcareful
  obtain ⟨answer, hrun, hstanding⟩ := exists_answer h.promised h.noLegacy hends
  refine ⟨h.promised.step (fun slot _ => h.noLegacy slot) n, noLegacy_step h.noLegacy c n, ?_, ?_⟩
  · intro slot p hslot
    rw [hstanding] at hslot
    rcases after_cases hslot with hold | ⟨hsets, -⟩
    · exact h.known slot p hold
    · cases c with
      | setPasscode =>
        cases hsets
        exact hrule.1
      | setDuressPasscode => exact hrule.elim
      | setDuressPasscodeWith =>
        cases hsets
        exact hrule
      | _ => cases hsets
  · intro p q hreal hduress
    rw [hstanding] at hreal hduress
    rcases after_cases hreal with hreal' | ⟨hsets, rfl⟩
    · rcases after_cases hduress with hduress' | ⟨hsets, rfl⟩
      · exact h.apart p q hreal' hduress'
      · -- the duress passcode was set, and the real one is what it was
        cases c with
        | setDuressPasscodeWith _ r =>
          cases hsets
          have hrow : Row env w.device .real (.holds p) := hreal' ▸ h.promised .real
          obtain ⟨_, hset, hanswer⟩ := runClean_answering hrun
          cases hanswer
          exact runClean_setDuressPasscodeWith hrow (hknown p (h.known .real p hreal')) hset
        | setDuressPasscode => exact hrule.elim
        | _ => cases hsets
    · cases c with
      | setPasscode =>
        cases hsets
        have hlong : minLength ≤ env.characterCount p := by
          by_contra hshort
          obtain ⟨_, hset, hanswer⟩ := runClean_answering hrun
          obtain ⟨_, hfails⟩ := setPasscodeIntoSlot_short (Nat.lt_of_not_le hshort) .real w.device
          cases hanswer
          cases hset.symm.trans hfails
        rcases after_cases hduress with hduress' | ⟨hsets, -⟩
        · exact hrule.2 hlong q hduress'
        · cases hsets
      | _ => cases hsets

omit [DecidableEq κ] [Inhabited δ] in
/-- One slip of the hand is what the rule is about. -/
theorem duressTooSimilarToReal_of_slip {p t : String}
    (h : OptimalStringAlignment.Slip p.toList t.toList) : duressTooSimilarToReal p t = true :=
  decide_eq_true (OptimalStringAlignment.osa_le_one h)

/-- From an install without passcodes, in a run in which no new real passcode is within a typo of
the duress passcode that is set: no typo of the real passcode, and not the passcode itself, is
taken for the duress passcode. -/
theorem typo_not_duress {d : Device κ δ} (hunset : ∀ slot : Slot, d.keychain slot.account = none)
    (hnone : ∀ slot, ¬ LegacyUsable d slot) (hknown : ∀ p, known p → Unambiguous env p)
    (hrun : Runs.Reach (fun w (e : Call × Nat) w' => w' = w.step env e.1 e.2)
      (Careful env known) ⟨d, fun _ => .unset⟩ w) {p q : String}
    (hreal : w.standing .real = .holds p) (hduress : w.standing .duress = .holds q) :
    (∀ t, osaDistance p t ≤ maxConfusableEditDistance → found env w.device t ≠ .ok .duress) ∧
      found env w.device p = .ok .real := by
  have hinit : Guarded env known ⟨d, fun _ => .unset⟩ :=
    ⟨fun slot => ⟨hunset slot, hnone slot⟩, hnone, nofun, nofun⟩
  have hguarded : Guarded env known w := by
    refine hrun.invariant (Guarded env known) ?_ hinit
    rintro w e _ h hcareful rfl
    exact h.step hknown hcareful
  have hrealRow : Row env w.device .real (.holds p) := hreal ▸ hguarded.promised .real
  have hduressRow : Row env w.device .duress (.holds q) := hduress ▸ hguarded.promised .duress
  have htypo : ∀ t, osaDistance p t ≤ maxConfusableEditDistance →
      found env w.device t ≠ .ok .duress := by
    intro t hnear hfound
    obtain ⟨salt, hash, hhash, hcompare⟩ := hduressRow.comparesWith
    have hsame : derived env t salt = derived env q salt := by
      rw [((hcompare t).mp hfound).1.2, derived, hhash]
    obtain rfl := hknown q (hguarded.known .duress q hduress) salt t hsame
    have hapart := hguarded.apart p t hreal hduress
    rw [duressTooSimilarToReal, decide_eq_true hnear] at hapart
    cases hapart
  refine ⟨htypo, ?_⟩
  obtain ⟨salt, hash, hhash, hcompare⟩ := hrealRow.comparesWith
  refine (hcompare p).mpr ⟨⟨hrealRow.1, by rw [derived, hhash]⟩, fun _ => htypo p ?_⟩
  rw [osaDistance, OptimalStringAlignment.osa_self]
  exact Nat.zero_le _

/-! ## A changed passcode -/

theorem utf8_injective : Function.Injective utf8 := by
  intro s t h
  exact String.toByteArray_inj.mp (ByteArray.ext (Array.toList_inj.mp h))

/-- One byte for each of three passcodes, and one for the others. -/
def code (passphrase : Bytes) : UInt8 :=
  if passphrase = utf8 "111111" then 1
  else if passphrase = utf8 "123457" then 2
  else if passphrase = utf8 "123456" then 3
  else 0

/-- Argon2id on three passcodes and the others. -/
def threeHashes : PasscodeEnv where
  derive passphrase _ := some (FixedBytes.replicate 32 (code passphrase))
  characterCount := String.length

/-- The three. -/
def Three (p : String) : Prop := p = "111111" ∨ p = "123457" ∨ p = "123456"

theorem threeHashes_unambiguous (p : String) (h : Three p) : Unambiguous threeHashes p := by
  intro salt entry heq
  have hcode : code (utf8 entry) = code (utf8 p) := List.replicate_right_injective (by decide) heq
  have hentry : ∀ c, c ≠ 0 → code (utf8 entry) = c →
      (c = 1 → entry = "111111") ∧ (c = 2 → entry = "123457") ∧ (c = 3 → entry = "123456") := by
    rintro c hc rfl
    unfold code at hc ⊢
    split
    · next heq =>
      exact ⟨fun _ => utf8_injective heq, fun h => absurd h (by decide), fun h => absurd h (by decide)⟩
    split
    · next heq =>
      exact ⟨fun h => absurd h (by decide), fun _ => utf8_injective heq, fun h => absurd h (by decide)⟩
    split
    · next heq =>
      exact ⟨fun h => absurd h (by decide), fun h => absurd h (by decide), fun _ => utf8_injective heq⟩
    · next h₁ h₂ h₃ =>
      rw [if_neg h₁, if_neg h₂, if_neg h₃] at hc
      exact absurd rfl hc
  rcases h with rfl | rfl | rfl
  · exact (hentry 1 (by decide) hcode).1 rfl
  · exact (hentry 2 (by decide) (hcode.trans (by decide))).2.1 rfl
  · exact (hentry 3 (by decide) (hcode.trans (by decide))).2.2 rfl

/-- A new install. -/
def newInstall : World Unit Unit := ⟨sampleDevice fun _ => none, fun _ => .unset⟩

/-- The real passcode is set, and a duress passcode that is not near it. -/
def bothSet : World Unit Unit :=
  (newInstall.step threeHashes (.setPasscode "111111") 9).step threeHashes
    (.setDuressPasscodeWith "123457" "111111") 30

theorem typo_not_duress_both_set : found threeHashes bothSet.device "111111" = .ok .real := by
  have hunset : ∀ slot : Slot, newInstall.device.keychain slot.account = none := fun _ => rfl
  have hnone : ∀ slot, ¬ LegacyUsable newInstall.device slot := by
    rintro slot ⟨hash, salt, hhash, -⟩
    cases hhash
  have hreal : Careful threeHashes Three newInstall (.setPasscode "111111", 9) :=
    ⟨by decide +kernel, .inl rfl, fun _ _ => nofun⟩
  have hduress : Careful threeHashes Three (newInstall.step threeHashes (.setPasscode "111111") 9)
      (.setDuressPasscodeWith "123457" "111111", 30) :=
    ⟨by decide +kernel, .inr (.inl rfl)⟩
  have hrun : Runs.Reach (fun w (e : Call × Nat) w' => w' = w.step threeHashes e.1 e.2)
      (Careful threeHashes Three) newInstall bothSet :=
    (Runs.Reach.refl.snoc rfl hreal).snoc rfl hduress
  exact (typo_not_duress hunset hnone threeHashes_unambiguous hrun (p := "111111") (q := "123457")
    (by decide +kernel) (by decide +kernel)).2

/-- The real passcode is changed to one a typo away from the duress passcode. -/
theorem changed_passcode_is_duress :
    (∀ p, Three p → Unambiguous threeHashes p) ∧
      (bothSet.step threeHashes (.setPasscode "123456") 9).standing .real = .holds "123456" ∧
      (bothSet.step threeHashes (.setPasscode "123456") 9).standing .duress = .holds "123457" ∧
      osaDistance "123456" "123457" ≤ 1 ∧
      found threeHashes (bothSet.step threeHashes (.setPasscode "123456") 9).device "123457" =
        .ok .duress := by
  refine ⟨threeHashes_unambiguous, ?_, ?_, ?_, ?_⟩ <;> decide +kernel

end AppPasscode

end Pizzini.App
