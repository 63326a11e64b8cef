import Pizzini.Lib.Bytes

/-!
# Decimal numbers as text

`decimal` is `format!("{n}")`, `parseU64` is `str::parse::<u64>`: a sign `+` is
allowed, an empty string and a value from 2^64 on are refused. What was
formatted is parsed back (`parseU64_decimal`), and contains no colon.
-/

namespace Wire

/-- The text of a number. -/
def decimal (n : Nat) : Bytes := (Nat.toDigits 10 n).map fun c => UInt8.ofNat c.toNat

def isDigit (b : UInt8) : Bool := 48 ≤ b && b ≤ 57

/-- The value of some digits. -/
def digitsValue (bs : Bytes) : Nat := bs.foldl (fun value b => 10 * value + (b.toNat - 48)) 0

/-- The digits behind the sign, if there is one. -/
def unsigned : Bytes → Bytes
  | 43 :: bs => bs
  | bs => bs

/-- `str::parse::<u64>`. -/
def parseU64 (bs : Bytes) : Option UInt64 :=
  let digits := unsigned bs
  if digits ≠ [] ∧ digits.all isDigit ∧ digitsValue digits < 2 ^ 64 then
    some (UInt64.ofNat (digitsValue digits))
  else none

theorem isDigit_ofNat {c : Char} (h : c.isDigit) :
    isDigit (UInt8.ofNat c.toNat) = true ∧ (UInt8.ofNat c.toNat).toNat = c.toNat := by
  have hrange : 48 ≤ c.toNat ∧ c.toNat ≤ 57 := Char.isDigit_iff_toNat.mp h
  have hlt : c.toNat < UInt8.size := by
    have : UInt8.size = 256 := rfl
    omega
  have hvalue := UInt8.toNat_ofNat_of_lt' hlt
  refine ⟨?_, hvalue⟩
  simp only [isDigit, Bool.and_eq_true, decide_eq_true_eq, UInt8.le_iff_toNat_le, hvalue]
  exact hrange

theorem decimal_digits (n : Nat) : ∀ b ∈ decimal n, isDigit b = true := by
  intro b hb
  obtain ⟨c, hc, rfl⟩ := List.mem_map.mp hb
  exact (isDigit_ofNat (Nat.isDigit_of_mem_toDigits (by decide) (by decide) hc)).1

theorem decimal_ne_nil (n : Nat) : decimal n ≠ [] := fun h =>
  Nat.toDigits_ne_nil (List.map_eq_nil_iff.mp h)

theorem digitsValue_decimal (n : Nat) : digitsValue (decimal n) = n := by
  have hdigits : ∀ c ∈ Nat.toDigits 10 n, (UInt8.ofNat c.toNat).toNat = c.toNat := fun c hc =>
    (isDigit_ofNat (Nat.isDigit_of_mem_toDigits (by decide) (by decide) hc)).2
  -- digit by digit, the value of the bytes is the value of the characters
  have hfold : ∀ (cs : List Char), (∀ c ∈ cs, (UInt8.ofNat c.toNat).toNat = c.toNat) → ∀ value,
      (cs.map fun c => UInt8.ofNat c.toNat).foldl (fun value b => 10 * value + (b.toNat - 48)) value =
        Nat.ofDigitChars 10 cs value := by
    intro cs
    induction cs with
    | nil => exact fun _ _ => rfl
    | cons c cs ih =>
      intro hcs value
      rw [List.map_cons, List.foldl_cons, hcs c List.mem_cons_self, Nat.ofDigitChars_cons]
      exact ih (fun c' hc' => hcs c' (List.mem_cons_of_mem c hc')) _
  rw [digitsValue, decimal, hfold _ hdigits, Nat.ofDigitChars_ten_toDigits]

/-- A number that fits is read back. -/
theorem parseU64_decimal (n : UInt64) : parseU64 (decimal n.toNat) = some n := by
  have hsign : unsigned (decimal n.toNat) = decimal n.toNat := by
    unfold unsigned
    split
    next bs heq =>
      have hplus := decimal_digits n.toNat 43 (by rw [heq]; exact List.mem_cons_self)
      exact absurd hplus (by decide)
    next => rfl
  rw [parseU64]
  simp only [hsign, digitsValue_decimal]
  rw [if_pos ⟨decimal_ne_nil _, List.all_eq_true.mpr (decimal_digits _), n.toNat_lt⟩,
    UInt64.ofNat_toNat]

end Wire
