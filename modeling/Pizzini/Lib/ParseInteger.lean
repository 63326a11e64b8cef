import Mathlib.Algebra.Ring.Nat
import Mathlib.Data.Nat.Notation
import Mathlib.Tactic.Common

/-!
# `FixedWidthInteger.init?(_:radix:)` of an unsigned type

The library reads an optional sign and then digits, and gives up where the value does not
fit. A text with a plus sign is read like the one without it, and a minus sign is read as
well, when the digits behind it are zeros (`parseUnsigned_eq_some_iff`).
-/

namespace ParseInteger

/-- The value of a digit in a radix of at most 36. -/
def digitValue (radix : Nat) (c : Char) : Option Nat :=
  let d := if '0' ≤ c ∧ c ≤ '9' then c.toNat - 48
    else if 'a' ≤ c ∧ c ≤ 'z' then c.toNat - 87
    else if 'A' ≤ c ∧ c ≤ 'Z' then c.toNat - 55
    else radix
  if d < radix then some d else none

/-- One more digit of a positive number, below `bound`. -/
def addDigit (bound radix acc : Nat) (c : Char) : Option Nat :=
  (digitValue radix c).bind fun d => if acc * radix + d < bound then some (acc * radix + d) else none

/-- One more digit of a negative number. -/
def subDigit (bound radix acc : Nat) (c : Char) : Option Nat :=
  (digitValue radix c).bind fun d =>
    if acc * radix < bound ∧ d ≤ acc * radix then some (acc * radix - d) else none

def parseUnsigned (bound radix : Nat) : List Char → Option Nat
  | [] => none
  | c :: digits =>
    if c = '-' then
      if digits = [] then none else digits.foldlM (subDigit bound radix) 0
    else if c = '+' then
      if digits = [] then none else digits.foldlM (addDigit bound radix) 0
    else (c :: digits).foldlM (addDigit bound radix) 0

/-- The number that digits denote, behind the digits of `acc`. -/
def valueOf (radix acc : Nat) (digits : List Char) : Nat :=
  digits.foldl (fun acc c => acc * radix + (digitValue radix c).getD 0) acc

/-- Some digits. -/
def Digits (radix : Nat) (digits : List Char) : Prop :=
  digits ≠ [] ∧ ∀ c ∈ digits, (digitValue radix c).isSome

variable {bound radix : Nat}

theorem digitValue_lt {c : Char} {d : Nat} (h : digitValue radix c = some d) : d < radix := by
  have hany : ∀ value : Nat, (if value < radix then some value else none) = some d → d < radix := by
    intro value hvalue
    split at hvalue
    · next hlt =>
      cases hvalue
      exact hlt
    · cases hvalue
  exact hany _ h

theorem valueOf_cons (acc : Nat) (c : Char) (digits : List Char) : valueOf radix acc (c :: digits) =
    valueOf radix (acc * radix + (digitValue radix c).getD 0) digits := rfl

theorem le_valueOf (hradix : 0 < radix) : ∀ (digits : List Char) (acc : Nat),
    acc ≤ valueOf radix acc digits
  | [], _ => Nat.le_refl _
  | c :: digits, acc => by
    have hstep : acc ≤ acc * radix := Nat.le_mul_of_pos_right acc hradix
    have hrest := le_valueOf hradix digits (acc * radix + (digitValue radix c).getD 0)
    rw [valueOf_cons]
    omega

/-- Digit by digit the value is read, as long as it fits. -/
theorem foldlM_addDigit (hradix : 0 < radix) : ∀ {digits : List Char} {acc n : Nat}, acc < bound →
    (digits.foldlM (addDigit bound radix) acc = some n ↔
      (∀ c ∈ digits, (digitValue radix c).isSome) ∧ valueOf radix acc digits = n ∧ n < bound) := by
  intro digits
  induction digits with
  | nil =>
    intro acc n hacc
    constructor
    · rintro ⟨⟩
      exact ⟨fun c hc => absurd hc List.not_mem_nil, rfl, hacc⟩
    · rintro ⟨-, rfl, -⟩
      rfl
  | cons c digits ih =>
    intro acc n hacc
    rw [List.foldlM_cons, addDigit, List.forall_mem_cons, valueOf_cons]
    cases hdigit : digitValue radix c with
    | none =>
      refine iff_of_false (fun h => by cases h) ?_
      rintro ⟨⟨hsome, -⟩, -⟩
      cases hsome
    | some d =>
      rw [Option.bind_some, Option.getD_some]
      by_cases hfits : acc * radix + d < bound
      · rw [if_pos hfits]
        show digits.foldlM (addDigit bound radix) (acc * radix + d) = some n ↔ _
        rw [ih hfits]
        simp
      · rw [if_neg hfits]
        refine iff_of_false (fun h => by cases h) ?_
        rintro ⟨-, hvalue, hlt⟩
        have hle := le_valueOf hradix digits (acc * radix + d)
        omega

/-- Behind a minus sign only zeros are read. -/
theorem foldlM_subDigit (hbound : 0 < bound) : ∀ {digits : List Char} {n : Nat},
    (digits.foldlM (subDigit bound radix) 0 = some n ↔
      (∀ c ∈ digits, digitValue radix c = some 0) ∧ n = 0) := by
  intro digits
  induction digits with
  | nil =>
    intro n
    constructor
    · rintro ⟨⟩
      exact ⟨fun c hc => absurd hc List.not_mem_nil, rfl⟩
    · rintro ⟨-, rfl⟩
      rfl
  | cons c digits ih =>
    intro n
    rw [List.foldlM_cons, subDigit, List.forall_mem_cons]
    cases hdigit : digitValue radix c with
    | none => exact iff_of_false (fun h => by cases h) fun h => by cases h.1.1
    | some d =>
      rw [Option.bind_some, Nat.zero_mul]
      by_cases hzero : d = 0
      · subst hzero
        rw [if_pos ⟨hbound, Nat.le_refl 0⟩]
        show digits.foldlM (subDigit bound radix) 0 = some n ↔ _
        rw [ih]
        simp
      · rw [if_neg fun h => hzero (Nat.le_zero.mp h.2)]
        refine iff_of_false (fun h => by cases h) ?_
        rintro ⟨⟨heq, -⟩, -⟩
        exact hzero (Option.some.inj heq)

theorem digitValue_plus : digitValue radix '+' = none := if_neg (Nat.lt_irrefl radix)

theorem digitValue_minus : digitValue radix '-' = none := if_neg (Nat.lt_irrefl radix)

/-- The three forms of a text that is read, and its value. -/
theorem parseUnsigned_eq_some_iff (hradix : 0 < radix) (hbound : 0 < bound) {text : List Char}
    {n : Nat} : parseUnsigned bound radix text = some n ↔
      (Digits radix text ∧ valueOf radix 0 text = n ∧ n < bound) ∨
      (∃ digits, text = '+' :: digits ∧ Digits radix digits ∧ valueOf radix 0 digits = n ∧
        n < bound) ∨
      ∃ digits, text = '-' :: digits ∧ digits ≠ [] ∧ (∀ c ∈ digits, digitValue radix c = some 0) ∧
        n = 0 := by
  have hnotDigits : ∀ {c : Char} {digits : List Char}, digitValue radix c = none →
      ¬ Digits radix (c :: digits) := by
    intro c digits hc h
    have hsome := h.2 c List.mem_cons_self
    rw [hc] at hsome
    cases hsome
  cases text with
  | nil => simp [parseUnsigned, Digits]
  | cons c digits =>
    rw [parseUnsigned]
    by_cases hminus : c = '-'
    · subst hminus
      have hfirst : ¬ Digits radix ('-' :: digits) := hnotDigits digitValue_minus
      by_cases hnil : digits = []
      · simp [hnil, Digits, digitValue_minus]
      · simp [hnil, hfirst, foldlM_subDigit hbound]
    · by_cases hplus : c = '+'
      · subst hplus
        have hfirst : ¬ Digits radix ('+' :: digits) := hnotDigits digitValue_plus
        by_cases hnil : digits = []
        · simp [hnil, Digits, digitValue_plus]
        · have hrest : Digits radix digits ↔ ∀ c ∈ digits, (digitValue radix c).isSome :=
            and_iff_right hnil
          simp [hnil, hfirst, foldlM_addDigit hradix hbound, hrest]
      · have hall : Digits radix (c :: digits) ↔ ∀ d ∈ c :: digits, (digitValue radix d).isSome :=
          and_iff_right (List.cons_ne_nil c digits)
        rw [if_neg hminus, if_neg hplus, foldlM_addDigit hradix hbound, hall]
        simp [hminus, hplus]

end ParseInteger
