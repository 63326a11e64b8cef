import Mathlib.Algebra.Order.Field.Rat
import Mathlib.Data.Int.Log
import Mathlib.Data.Rat.Floor
import Mathlib.Tactic.Linarith
import Mathlib.Tactic.NormNum
import Mathlib.Tactic.Ring

/-!
# Rounding to a floating-point precision

`roundHalfEven x` is the nearest integer, a tie going to the even one. `roundTo p x`
is the nearest number with `p` significant bits, a tie going to the even mantissa:
the result of an arithmetic operation on binary floating-point numbers of precision
`p` whose exact result is `x`, as long as it neither overflows nor underflows.

Both are monotone (`roundHalfEven_mono`, `roundTo_mono`), so a chain of operations
with a constant operand each is, and its range follows from its ends. `roundTo_eq`
is for computing the ends.
-/

namespace Rounding

/-! ## To the nearest integer -/

/-- The nearest integer, and of two the even one. -/
def roundHalfEven (x : ℚ) : ℤ :=
  if Int.fract x < 1 / 2 then ⌊x⌋
  else if 1 / 2 < Int.fract x then ⌊x⌋ + 1
  else if Even ⌊x⌋ then ⌊x⌋ else ⌊x⌋ + 1

/-- `n` is within half a unit of `x`, and even if it is half a unit away. -/
structure Nearest (x : ℚ) (n : ℤ) : Prop where
  close : |x - n| ≤ 1 / 2
  tie : |x - n| = 1 / 2 → Even n

theorem nearest_roundHalfEven (x : ℚ) : Nearest x (roundHalfEven x) := by
  have hsplit : (⌊x⌋ : ℚ) + Int.fract x = x := Int.floor_add_fract x
  have hlow := Int.fract_nonneg x
  have hhigh := Int.fract_lt_one x
  have hdown : x - (⌊x⌋ : ℚ) = Int.fract x := by linarith
  have hup : x - ((⌊x⌋ + 1 : ℤ) : ℚ) = Int.fract x - 1 := by
    push_cast
    linarith
  rw [roundHalfEven]
  split
  · next hlt =>
    rw [← hdown] at hlt hlow
    refine ⟨?_, fun htie => ?_⟩
    · rw [abs_of_nonneg hlow]
      exact hlt.le
    · rw [abs_of_nonneg hlow] at htie
      exact absurd htie hlt.ne
  next hge =>
  split
  · next hgt =>
    have hneg : x - ((⌊x⌋ + 1 : ℤ) : ℚ) ≤ 0 := by
      rw [hup]
      linarith
    refine ⟨?_, fun htie => ?_⟩
    · rw [abs_of_nonpos hneg, hup]
      linarith
    · rw [abs_of_nonpos hneg, hup] at htie
      linarith
  next hle =>
  -- a tie: the even neighbour
  have hhalf : Int.fract x = 1 / 2 := le_antisymm (not_lt.mp hle) (not_lt.mp hge)
  split
  · next heven =>
    refine ⟨?_, fun _ => heven⟩
    rw [hdown, hhalf, abs_of_pos (by norm_num)]
  · next hodd =>
    refine ⟨?_, fun _ => (Int.not_even_iff_odd.mp hodd).add_one⟩
    rw [hup, hhalf, abs_of_neg (by norm_num)]
    norm_num

theorem Nearest.le {x y : ℚ} {m n : ℤ} (hm : Nearest x m) (hn : Nearest y n) (hxy : x ≤ y) :
    m ≤ n := by
  by_contra hlt
  have hnext : n + 1 ≤ m := by omega
  have hgap : (n : ℚ) + 1 ≤ m := by exact_mod_cast hnext
  have hx := abs_le.mp hm.close
  have hy := abs_le.mp hn.close
  -- both are half a unit away from the same point
  have hxm : x - m = -(1 / 2) := by linarith [hx.1, hy.2]
  have hyn : y - n = 1 / 2 := by linarith [hx.1, hy.2]
  have hsucc : m = n + 1 := by
    have hcast : (m : ℚ) = n + 1 := by linarith [hx.1, hy.2]
    exact_mod_cast hcast
  have hevenm : Even m := hm.tie (by rw [hxm]; norm_num)
  have hevenn : Even n := hn.tie (by rw [hyn]; norm_num)
  rw [hsucc] at hevenm
  exact Int.not_even_iff_odd.mpr hevenn.add_one hevenm

theorem roundHalfEven_eq {x : ℚ} {n : ℤ} (h : Nearest x n) : roundHalfEven x = n :=
  le_antisymm ((nearest_roundHalfEven x).le h le_rfl) (h.le (nearest_roundHalfEven x) le_rfl)

theorem roundHalfEven_mono {x y : ℚ} (h : x ≤ y) : roundHalfEven x ≤ roundHalfEven y :=
  (nearest_roundHalfEven x).le (nearest_roundHalfEven y) h

theorem nearest_intCast (n : ℤ) : Nearest n n where
  close := by
    rw [sub_self, abs_zero]
    norm_num
  tie h := by
    rw [sub_self, abs_zero] at h
    norm_num at h

@[simp] theorem roundHalfEven_intCast (n : ℤ) : roundHalfEven n = n :=
  roundHalfEven_eq (nearest_intCast n)

theorem roundHalfEven_neg (x : ℚ) : roundHalfEven (-x) = -roundHalfEven x := by
  refine roundHalfEven_eq ?_
  have h := nearest_roundHalfEven x
  have hflip : -x - ((-roundHalfEven x : ℤ) : ℚ) = -(x - roundHalfEven x) := by
    push_cast
    ring
  constructor
  · rw [hflip, abs_neg]
    exact h.close
  · intro htie
    rw [hflip, abs_neg] at htie
    exact (h.tie htie).neg

/-- Below or above an integer, so is the rounded number. -/
theorem roundHalfEven_le {x : ℚ} {n : ℤ} (h : x ≤ n) : roundHalfEven x ≤ n := by
  have hmono := roundHalfEven_mono h
  rwa [roundHalfEven_intCast] at hmono

theorem le_roundHalfEven {x : ℚ} {n : ℤ} (h : n ≤ x) : n ≤ roundHalfEven x := by
  have hmono := roundHalfEven_mono h
  rwa [roundHalfEven_intCast] at hmono

/-! ## To `p` significant bits -/

/-- The exponent of the last bit of a mantissa of `p` bits for `x`. -/
def lastBit (p : ℕ) (x : ℚ) : ℤ := Int.log 2 |x| + 1 - p

/-- The nearest number of precision `p`. -/
def roundTo (p : ℕ) (x : ℚ) : ℚ := roundHalfEven (x / 2 ^ lastBit p x) * 2 ^ lastBit p x

variable {p : ℕ} {x y : ℚ}

theorem lastBit_eq {e : ℤ} (hlow : (2 : ℚ) ^ (e + p - 1) ≤ |x|) (hhigh : |x| < 2 ^ (e + p)) :
    lastBit p x = e := by
  have hpos : 0 < |x| := lt_of_lt_of_le (zpow_pos (by norm_num) _) hlow
  have hle : e + p - 1 ≤ Int.log 2 |x| :=
    (Int.zpow_le_iff_le_log (by decide) hpos).mp (by exact_mod_cast hlow)
  have hlt : Int.log 2 |x| < e + p :=
    (Int.lt_zpow_iff_log_lt (by decide) hpos).mp (by exact_mod_cast hhigh)
  rw [lastBit]
  omega

/-- `roundTo` with the exponent given. -/
theorem roundTo_eq {e : ℤ} (hlow : (2 : ℚ) ^ (e + p - 1) ≤ |x|) (hhigh : |x| < 2 ^ (e + p)) :
    roundTo p x = roundHalfEven (x / 2 ^ e) * 2 ^ e := by
  rw [roundTo, lastBit_eq hlow hhigh]

@[simp] theorem roundTo_zero (p : ℕ) : roundTo p 0 = 0 := by
  have hzero : roundHalfEven 0 = 0 := by exact_mod_cast roundHalfEven_intCast 0
  rw [roundTo, zero_div, hzero, Int.cast_zero, zero_mul]

theorem roundTo_neg (p : ℕ) (x : ℚ) : roundTo p (-x) = -roundTo p x := by
  have hbit : lastBit p (-x) = lastBit p x := by
    rw [lastBit, lastBit, abs_neg]
  rw [roundTo, roundTo, hbit, neg_div, roundHalfEven_neg]
  push_cast
  ring

theorem roundTo_nonneg (h : 0 ≤ x) : 0 ≤ roundTo p x := by
  have hround : (0 : ℤ) ≤ roundHalfEven (x / 2 ^ lastBit p x) :=
    le_roundHalfEven (by
      rw [Int.cast_zero]
      exact div_nonneg h (zpow_pos (by norm_num) _).le)
  have hcast : (0 : ℚ) ≤ roundHalfEven (x / 2 ^ lastBit p x) := by exact_mod_cast hround
  rw [roundTo]
  exact mul_nonneg hcast (zpow_pos (by norm_num) _).le

/-- Rounding does not leave the binade of `x`, its upper end included. -/
theorem roundTo_binade (hp : 1 ≤ p) (h : 0 < x) :
    (2 : ℚ) ^ Int.log 2 x ≤ roundTo p x ∧ roundTo p x ≤ 2 ^ (Int.log 2 x + 1) := by
  have habs : |x| = x := abs_of_pos h
  have hbit : lastBit p x = Int.log 2 x + 1 - p := by rw [lastBit, habs]
  have hunit : (0 : ℚ) < 2 ^ lastBit p x := zpow_pos (by norm_num) _
  have hlow : (2 : ℚ) ^ Int.log 2 x ≤ x := by exact_mod_cast Int.zpow_log_le_self (by decide) h
  have hhigh : x < (2 : ℚ) ^ (Int.log 2 x + 1) := by
    exact_mod_cast Int.lt_zpow_succ_log_self (b := 2) (by decide) x
  -- both ends of the binade are whole multiples of the last bit
  have hends : ∀ k : ℕ, ((2 ^ k : ℤ) : ℚ) * 2 ^ lastBit p x = 2 ^ (lastBit p x + k) := by
    intro k
    push_cast
    rw [← zpow_natCast, ← zpow_add₀ (by norm_num), add_comm]
  have hbottom : lastBit p x + ((p - 1 : ℕ) : ℤ) = Int.log 2 x := by omega
  have htop : lastBit p x + (p : ℤ) = Int.log 2 x + 1 := by omega
  constructor
  · rw [← hbottom, ← hends, roundTo]
    have hround : (2 ^ (p - 1) : ℤ) ≤ roundHalfEven (x / 2 ^ lastBit p x) := by
      refine le_roundHalfEven ?_
      rw [le_div_iff₀ hunit, hends, hbottom]
      exact hlow
    exact mul_le_mul_of_nonneg_right (by exact_mod_cast hround) hunit.le
  · rw [← htop, ← hends, roundTo]
    have hround : roundHalfEven (x / 2 ^ lastBit p x) ≤ (2 ^ p : ℤ) := by
      refine roundHalfEven_le ?_
      rw [div_le_iff₀ hunit, hends, htop]
      exact hhigh.le
    exact mul_le_mul_of_nonneg_right (by exact_mod_cast hround) hunit.le

theorem roundTo_mono_of_pos (hp : 1 ≤ p) (hx : 0 < x) (h : x ≤ y) :
    roundTo p x ≤ roundTo p y := by
  have hy : 0 < y := lt_of_lt_of_le hx h
  rcases (Int.log_mono_right (b := 2) hx h).eq_or_lt with hsame | hlt
  · have hbit : lastBit p y = lastBit p x := by
      rw [lastBit, lastBit, abs_of_pos hx, abs_of_pos hy, hsame]
    have hunit : (0 : ℚ) < 2 ^ lastBit p x := zpow_pos (by norm_num) _
    rw [roundTo, roundTo, hbit]
    refine mul_le_mul_of_nonneg_right ?_ hunit.le
    exact_mod_cast roundHalfEven_mono (div_le_div_of_nonneg_right h hunit.le)
  · -- the end of a binade is between them
    calc roundTo p x ≤ 2 ^ (Int.log 2 x + 1) := (roundTo_binade hp hx).2
      _ ≤ 2 ^ Int.log 2 y := zpow_le_zpow_right₀ (by norm_num) hlt
      _ ≤ roundTo p y := (roundTo_binade hp hy).1

theorem roundTo_mono (hp : 1 ≤ p) (h : x ≤ y) : roundTo p x ≤ roundTo p y := by
  rcases lt_trichotomy x 0 with hx | rfl | hx
  · rcases lt_or_ge y 0 with hy | hy
    · have hflip := roundTo_mono_of_pos hp (neg_pos.mpr hy) (neg_le_neg h)
      rw [roundTo_neg, roundTo_neg] at hflip
      exact neg_le_neg_iff.mp hflip
    · have hflip : 0 ≤ roundTo p (-x) := roundTo_nonneg (neg_pos.mpr hx).le
      rw [roundTo_neg] at hflip
      exact (neg_nonneg.mp hflip).trans (roundTo_nonneg hy)
  · rw [roundTo_zero]
    exact roundTo_nonneg h
  · exact roundTo_mono_of_pos hp hx h

end Rounding
