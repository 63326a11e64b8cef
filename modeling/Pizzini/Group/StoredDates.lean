import Pizzini.Group.SQLiteStorage
import Pizzini.Lib.Rounding

/-!
# Dates on their way to the database (`PizziniDB/Statement.swift`, `SQLiteStorage.swift`)

`intoChatGroup` and `create` make the `Date`s of a group from the milliseconds in a
frame, `upsertGroup` binds them as `Int64` milliseconds, and a relaunch makes
`Date`s of these again. All of it is `Double` arithmetic, and the conversion to
`Int64` traps outside of its range.

`bindDate_eq_none_iff` is where that is: the milliseconds of a frame are 64 bits
without a sign, and those from 512 below 2⁶³ on do not come through. What has come
through once does so again after a relaunch (`bindDate_reloaded`).
-/

namespace Pizzini.Group

open Rounding

/-! ## `Date` -/

/-- The nearest `Double`; nothing here comes near the ends of the exponent's range. -/
def double (x : ℚ) : ℚ := roundTo 53 x

/-- `Date.timeIntervalBetween1970AndReferenceDate`. -/
def timeIntervalBetween1970AndReferenceDate : ℚ := 978307200

/-- `Date(timeIntervalSince1970:)` as what a `Date` stores: the seconds since its reference
date. -/
def dateSince1970 (timeInterval : ℚ) : ℚ :=
  double (timeInterval - timeIntervalBetween1970AndReferenceDate)

/-- `Date(timeIntervalSince1970: TimeInterval(timestampMillis) / 1000)`
(`GroupApply.swift:653`, `GroupBootstrap.swift:273`). -/
def dateOfMillis (timestampMillis : UInt64) : ℚ :=
  dateSince1970 (double (double timestampMillis.toNat / 1000))

/-- `date.timeIntervalSince1970`. -/
def timeIntervalSince1970 (date : ℚ) : ℚ := double (date + timeIntervalBetween1970AndReferenceDate)

/-- `.rounded()`: to the nearest integer, and of two away from zero. -/
def rounded (x : ℚ) : ℤ := if 0 ≤ x then ⌊x + 1 / 2⌋ else -⌊-x + 1 / 2⌋

/-- `Int64(_:)` of a whole `Double`; `none` is a trap. -/
def toInt64 (n : ℤ) : Option Int64 :=
  if -2 ^ 63 ≤ n ∧ n < 2 ^ 63 then some (Int64.ofInt n) else none

/-- `Date.bind(to:at:)` (`Statement.swift:253`). -/
def bindDate (date : ℚ) : Option Int64 :=
  toInt64 (rounded (double (timeIntervalSince1970 date * 1000)))

/-- `dateFromEpochMs` (`SQLiteStorage.swift:1158`). -/
def dateFromEpochMs (ms : Int64) : ℚ := dateSince1970 (double (double ms.toInt / 1000))

/-! ## From milliseconds to milliseconds -/

/-- The milliseconds that `bindDate` is left with, of a date that was made from `ms`. -/
def millisBack (ms : ℚ) : ℚ :=
  double (timeIntervalSince1970 (dateSince1970 (double (double ms / 1000))) * 1000)

theorem double_mono {x y : ℚ} (h : x ≤ y) : double x ≤ double y := roundTo_mono (by decide) h

theorem millisBack_mono {x y : ℚ} (h : x ≤ y) : millisBack x ≤ millisBack y := by
  have hseconds : double (double x / 1000) ≤ double (double y / 1000) :=
    double_mono (div_le_div_of_nonneg_right (double_mono h) (by norm_num))
  have hdate := double_mono (sub_le_sub_right hseconds timeIntervalBetween1970AndReferenceDate)
  have hback := double_mono (add_le_add_left hdate timeIntervalBetween1970AndReferenceDate)
  exact double_mono (mul_le_mul_of_nonneg_right hback (by norm_num))

/-- A number between two powers of two, rounded to the last bit of its binade. -/
theorem double_eq {x : ℚ} {e n : ℤ} (hlow : (2 : ℚ) ^ (e + 52) ≤ |x|)
    (hhigh : |x| < 2 ^ (e + 53)) (hnearest : Nearest (x / 2 ^ e) n) :
    double x = n * 2 ^ e := by
  have hbits : e + ((53 : ℕ) : ℤ) - 1 = e + 52 := by
    push_cast
    ring
  rw [double, roundTo_eq (e := e) (by rwa [hbits]) (by exact_mod_cast hhigh),
    roundHalfEven_eq hnearest]

theorem nearest_of_lt {x : ℚ} {n : ℤ} (h : |x - n| < 1 / 2) : Nearest x n :=
  ⟨h.le, fun htie => absurd htie h.ne⟩

theorem millisBack_zero : millisBack 0 = 0 := by
  have hdouble : double 0 = 0 := roundTo_zero 53
  have hreference : double (-978307200) = -978307200 := by
    rw [double_eq (e := -23) (n := -978307200 * 2 ^ 23) (by norm_num [abs_of_neg])
      (by norm_num [abs_of_neg]) (nearest_of_lt (by norm_num))]
    norm_num
  simp only [millisBack, timeIntervalSince1970, dateSince1970,
    timeIntervalBetween1970AndReferenceDate, hdouble, zero_div, zero_sub, hreference,
    neg_add_cancel, zero_mul]

/-- The last milliseconds that come back within the range of `Int64`. -/
theorem millisBack_last : millisBack (2 ^ 63 - 513) = 2 ^ 63 - 2048 := by
  have hmillis : double (2 ^ 63 - 513) = 9223372036854774784 := by
    rw [double_eq (e := 10) (n := 9007199254740991) (by norm_num) (by norm_num)
      (nearest_of_lt (by norm_num))]
    norm_num
  have hseconds : double (9223372036854774784 / 1000) = 9223372036854774 := by
    rw [double_eq (e := 1) (n := 4611686018427387) (by norm_num) (by norm_num)
      (nearest_of_lt (by norm_num))]
    norm_num
  have hdate : double (9223372036854774 - 978307200) = 9223371058547574 := by
    rw [double_eq (e := 1) (n := 4611685529273787) (by norm_num) (by norm_num)
      (nearest_of_lt (by norm_num))]
    norm_num
  have hback : double (9223371058547574 + 978307200) = 9223372036854774 := by
    rw [double_eq (e := 1) (n := 4611686018427387) (by norm_num) (by norm_num)
      (nearest_of_lt (by norm_num))]
    norm_num
  have hproduct : double (9223372036854774 * 1000) = 2 ^ 63 - 2048 := by
    rw [double_eq (e := 10) (n := 9007199254740990) (by norm_num) (by norm_num)
      (nearest_of_lt (by norm_num))]
    norm_num
  rw [millisBack, timeIntervalSince1970, dateSince1970, timeIntervalBetween1970AndReferenceDate,
    hmillis, hseconds, hdate, hback, hproduct]

/-- The next ones are half way to 2⁶³, and end up there. -/
theorem millisBack_next : millisBack (2 ^ 63 - 512) = 2 ^ 63 := by
  have hmillis : double (2 ^ 63 - 512) = 9223372036854775808 := by
    have htie : Nearest ((2 ^ 63 - 512 : ℚ) / 2 ^ (10 : ℤ)) 9007199254740992 :=
      ⟨by norm_num [abs_of_neg], fun _ => by decide⟩
    rw [double_eq (e := 10) (by norm_num) (by norm_num) htie]
    norm_num
  have hseconds : double (9223372036854775808 / 1000) = 9223372036854776 := by
    rw [double_eq (e := 1) (n := 4611686018427388) (by norm_num) (by norm_num)
      (nearest_of_lt (by norm_num [abs_of_neg]))]
    norm_num
  have hdate : double (9223372036854776 - 978307200) = 9223371058547576 := by
    rw [double_eq (e := 1) (n := 4611685529273788) (by norm_num) (by norm_num)
      (nearest_of_lt (by norm_num))]
    norm_num
  have hback : double (9223371058547576 + 978307200) = 9223372036854776 := by
    rw [double_eq (e := 1) (n := 4611686018427388) (by norm_num) (by norm_num)
      (nearest_of_lt (by norm_num))]
    norm_num
  have hproduct : double (9223372036854776 * 1000) = 2 ^ 63 := by
    rw [double_eq (e := 11) (n := 4503599627370496) (by norm_num) (by norm_num)
      (nearest_of_lt (by norm_num))]
    norm_num
  rw [millisBack, timeIntervalSince1970, dateSince1970, timeIntervalBetween1970AndReferenceDate,
    hmillis, hseconds, hdate, hback, hproduct]

/-! ## What can be stored -/

/-- The range of what the conversion is given. -/
theorem rounded_millisBack (ms : ℚ) (h : 0 ≤ ms) :
    0 ≤ rounded (millisBack ms) ∧ (ms ≤ 2 ^ 63 - 513 → rounded (millisBack ms) ≤ 2 ^ 63 - 2048) ∧
      (2 ^ 63 - 512 ≤ ms → 2 ^ 63 ≤ rounded (millisBack ms)) := by
  have hnonneg : 0 ≤ millisBack ms := by
    have hmono := millisBack_mono h
    rwa [millisBack_zero] at hmono
  rw [rounded, if_pos hnonneg]
  refine ⟨Int.floor_nonneg.mpr (by linarith), fun hlast => ?_, fun hnext => ?_⟩
  · have hmono := millisBack_mono hlast
    rw [millisBack_last] at hmono
    refine Int.le_of_lt_add_one (Int.floor_lt.mpr ?_)
    push_cast
    linarith
  · have hmono := millisBack_mono hnext
    rw [millisBack_next] at hmono
    refine Int.le_floor.mpr ?_
    push_cast
    linarith

/-- Below the last milliseconds, in the rationals. -/
theorem cast_le_of_lt {n : Nat} (h : n < 2 ^ 63 - 512) : (n : ℚ) ≤ 2 ^ 63 - 513 := by
  have hle : n ≤ 2 ^ 63 - 513 := by omega
  have hint : (n : ℚ) ≤ ((2 ^ 63 - 513 : ℕ) : ℚ) := by exact_mod_cast hle
  norm_num at hint ⊢
  exact hint

/-- The milliseconds of a frame that `upsertGroup` traps on. -/
theorem bindDate_eq_none_iff (ms : UInt64) :
    bindDate (dateOfMillis ms) = none ↔ 2 ^ 63 - 512 ≤ ms.toNat := by
  have hvalue : bindDate (dateOfMillis ms) = toInt64 (rounded (millisBack ms.toNat)) := rfl
  obtain ⟨hnonneg, hlast, hnext⟩ := rounded_millisBack ms.toNat (by positivity)
  rw [hvalue, toInt64]
  by_cases hrange : 2 ^ 63 - 512 ≤ ms.toNat
  · have hcast : (2 ^ 63 - 512 : ℚ) ≤ ms.toNat := by
      have hint : ((2 ^ 63 - 512 : ℕ) : ℚ) ≤ ms.toNat := by exact_mod_cast hrange
      norm_num at hint ⊢
      exact hint
    have hout := hnext hcast
    rw [if_neg (by omega)]
    exact iff_of_true rfl hrange
  · have hin := hlast (cast_le_of_lt (not_le.mp hrange))
    rw [if_pos (by omega)]
    exact iff_of_false nofun hrange

/-- What was bound, read and made a `Date` again is bound again. -/
theorem bindDate_reloaded {ms : UInt64} {stored : Int64}
    (h : bindDate (dateOfMillis ms) = some stored) :
    (bindDate (dateFromEpochMs stored)).isSome = true ∧ 0 ≤ stored.toInt ∧
      stored.toInt < 2 ^ 63 - 512 := by
  have hstorable : ms.toNat < 2 ^ 63 - 512 := by
    by_contra hge
    rw [(bindDate_eq_none_iff ms).mpr (not_lt.mp hge)] at h
    cases h
  obtain ⟨hnonneg, hlast, -⟩ := rounded_millisBack ms.toNat (by positivity)
  have hin := hlast (cast_le_of_lt hstorable)
  have hvalue : bindDate (dateOfMillis ms) = toInt64 (rounded (millisBack ms.toNat)) := rfl
  rw [hvalue, toInt64, if_pos (by omega)] at h
  cases h
  rw [Int64.toInt_ofInt_of_le (by omega) (by omega)]
  refine ⟨?_, hnonneg, by omega⟩
  have hagain : bindDate (dateFromEpochMs (Int64.ofInt (rounded (millisBack ms.toNat)))) =
      toInt64 (rounded (millisBack (rounded (millisBack ms.toNat)))) := by
    rw [bindDate, dateFromEpochMs, Int64.toInt_ofInt_of_le (by omega) (by omega)]
    rfl
  have hcast' : ((rounded (millisBack ms.toNat) : ℤ) : ℚ) ≤ 2 ^ 63 - 513 := by
    have hint : ((rounded (millisBack ms.toNat) : ℤ) : ℚ) ≤ ((2 ^ 63 - 2048 : ℤ) : ℚ) := by
      exact_mod_cast hin
    norm_num at hint ⊢
    linarith
  obtain ⟨hnonneg', hlast', -⟩ :=
    rounded_millisBack (rounded (millisBack ms.toNat) : ℤ) (by exact_mod_cast hnonneg)
  have hin' := hlast' hcast'
  rw [hagain, toInt64, if_pos (by omega)]
  rfl

end Pizzini.Group
