import Pizzini.Group.StoredDates
import Pizzini.Storage.CString

/-!
# Values on their way to SQLite and back (`PizziniDB/Statement.swift`)

A column holds a 64-bit integer, a text, a blob or nothing. Of a `String` what follows its first
NUL is not stored (`cString`). A `Date` is bound as whole milliseconds.

Rows are functions of the column. A statement binds its values by their place in a list of
columns and reads them by their place in another (`bound`, `column`). Dates are exact here, in
seconds since 1970; `StoredDates` is about the `Double` arithmetic.
-/

namespace Pizzini.Storage

open Wire

/-! ## Dates -/

/-- `Date`: the seconds since 1970. Its milliseconds are a number of 64 bits; those of the
clock are. -/
structure Date where
  timeIntervalSince1970 : ℚ
  inRange : -2 ^ 63 ≤ Group.rounded (timeIntervalSince1970 * 1000) ∧
    Group.rounded (timeIntervalSince1970 * 1000) < 2 ^ 63

theorem rounded_intCast (n : ℤ) : Group.rounded n = n := by
  have hhalf : ∀ m : ℤ, ⌊(m : ℚ) + 1 / 2⌋ = m := by
    intro m
    rw [Int.floor_intCast_add]
    norm_num
  rw [Group.rounded]
  split
  · exact hhalf n
  · rw [← Int.cast_neg, hhalf, neg_neg]

theorem abs_rounded_sub_le (x : ℚ) : |(Group.rounded x : ℚ) - x| ≤ 1 / 2 := by
  have hfloor : ∀ y : ℚ, |(⌊y + 1 / 2⌋ : ℚ) - y| ≤ 1 / 2 := by
    intro y
    have hlow := Int.floor_le (y + 1 / 2)
    have hhigh := Int.lt_floor_add_one (y + 1 / 2)
    rw [abs_le]
    constructor <;> linarith
  rw [Group.rounded]
  split
  · exact hfloor x
  · have hneg := hfloor (-x)
    rw [abs_sub_comm] at hneg
    rwa [Int.cast_neg, show -(⌊-x + 1 / 2⌋ : ℚ) - x = -x - ⌊-x + 1 / 2⌋ by ring]

namespace Date

@[ext] theorem ext {d d' : Date} (h : d.timeIntervalSince1970 = d'.timeIntervalSince1970) :
    d = d' := by
  cases d
  cases d'
  cases h
  rfl

/-- `Int64((timeIntervalSince1970 * 1000).rounded())` (Statement.swift:254). -/
def epochMs (d : Date) : Int64 := Int64.ofInt (Group.rounded (d.timeIntervalSince1970 * 1000))

/-- `dateFromEpochMs` (SQLiteStorage.swift:1158). -/
def fromEpochMs (ms : Int64) : Date where
  timeIntervalSince1970 := ms.toInt / 1000
  inRange := by
    rw [div_mul_cancel₀ _ (by norm_num), rounded_intCast]
    exact ⟨Int64.le_toInt ms, Int64.toInt_lt ms⟩

/-- The date rounded to the millisecond. -/
def toMillisecond (d : Date) : Date := fromEpochMs d.epochMs

theorem toInt_epochMs (d : Date) :
    d.epochMs.toInt = Group.rounded (d.timeIntervalSince1970 * 1000) :=
  Int64.toInt_ofInt_of_le d.inRange.1 d.inRange.2

/-- It is a whole number of milliseconds, and the nearest one. -/
theorem toMillisecond_nearest (d : Date) :
    (∃ n : ℤ, d.toMillisecond.timeIntervalSince1970 = n / 1000) ∧
      |d.toMillisecond.timeIntervalSince1970 - d.timeIntervalSince1970| ≤ 1 / 2 / 1000 := by
  refine ⟨⟨_, rfl⟩, ?_⟩
  have hnear := abs_rounded_sub_le (d.timeIntervalSince1970 * 1000)
  rw [← toInt_epochMs, abs_le] at hnear
  show |(d.epochMs.toInt : ℚ) / 1000 - d.timeIntervalSince1970| ≤ _
  rw [abs_le]
  constructor <;> linarith [hnear.1, hnear.2]

/-- A date that was read is read again. -/
@[simp] theorem toMillisecond_fromEpochMs (ms : Int64) :
    (fromEpochMs ms).toMillisecond = fromEpochMs ms := by
  have hsame : (fromEpochMs ms).epochMs = ms := by
    rw [epochMs, show (fromEpochMs ms).timeIntervalSince1970 = ms.toInt / 1000 from rfl,
      div_mul_cancel₀ _ (by norm_num), rounded_intCast, Int64.ofInt_toInt]
  rw [toMillisecond, hsame]

end Date

/-! ## Columns -/

/-- What a column holds. -/
inductive SqlValue where
  | null
  | integer (n : Int64)
  | text (s : String)
  | blob (bs : Bytes)
deriving DecidableEq

namespace SqlValue

/-- `String.bind(to:at:)` (Statement.swift:216). -/
def ofString (s : String) : SqlValue := text (cString s)

/-- `Bool.bind(to:at:)` (Statement.swift:206). -/
def ofBool (b : Bool) : SqlValue := integer (if b then 1 else 0)

/-- `UInt32` through `Int`. -/
def ofUInt32 (n : UInt32) : SqlValue := integer (Int64.ofNat n.toNat)

/-- `Date.bind(to:at:)` (Statement.swift:253). -/
def ofDate (d : Date) : SqlValue := integer d.epochMs

/-- The optional overload of `bind` (Statement.swift:91). -/
def ofOption {α : Type} (bind : α → SqlValue) : Option α → SqlValue
  | none => null
  | some value => bind value

/-- `columnIsNull`. -/
def columnIsNull (v : SqlValue) : Bool := v = null

/-- `columnInt64`, `columnInt`; a strict table has no texts or blobs in such a column. -/
def columnInt64 : SqlValue → Int64
  | integer n => n
  | _ => 0

/-- `columnOptionalInt64`. -/
def columnOptionalInt64 (v : SqlValue) : Option Int64 :=
  if v.columnIsNull then none else some v.columnInt64

/-- `columnBool`. -/
def columnBool (v : SqlValue) : Bool := v.columnInt64 ≠ 0

/-- `columnText`. -/
def columnText : SqlValue → Option String
  | text s => some (cString s)
  | _ => none

/-- `columnBlob`. -/
def columnBlob : SqlValue → Option Bytes
  | blob bs => some bs
  | _ => none

/-- A date, or nothing. -/
def columnDate (v : SqlValue) : Option Date := v.columnOptionalInt64.map Date.fromEpochMs

@[simp] theorem columnBool_ofBool (b : Bool) : (ofBool b).columnBool = b := by
  cases b <;> rfl

@[simp] theorem columnText_ofString (s : String) : (ofString s).columnText = some (cString s) := by
  show some (cString (cString s)) = _
  rw [cString_cString]

@[simp] theorem columnText_ofOption (s : Option String) :
    (ofOption ofString s).columnText = s.map cString := by
  cases s with
  | none => rfl
  | some s => exact columnText_ofString s

@[simp] theorem columnBlob_ofOption (bs : Option Bytes) : (ofOption blob bs).columnBlob = bs := by
  cases bs <;> rfl

@[simp] theorem columnDate_ofOption (d : Option Date) :
    (ofOption ofDate d).columnDate = d.map Date.toMillisecond := by
  cases d <;> rfl

end SqlValue

/-! ## Conversions that trap -/

/-- `UInt32(_:)` of an `Int64`; none is a trap. -/
def toUInt32 (n : Int64) : Option UInt32 :=
  if 0 ≤ n.toInt ∧ n.toInt < 2 ^ 32 then some (UInt32.ofNat n.toInt.toNat) else none

/-- `UInt64(_:)` of an `Int64`; none is a trap. -/
def toUInt64 (n : Int64) : Option UInt64 :=
  if 0 ≤ n.toInt then some (UInt64.ofNat n.toInt.toNat) else none

/-- `Int64(_:)` of a `UInt64`; none is a trap. -/
def int64? (n : UInt64) : Option Int64 := Group.toInt64 n.toNat

@[simp] theorem toUInt32_ofUInt32 (n : UInt32) :
    toUInt32 (SqlValue.ofUInt32 n).columnInt64 = some n := by
  have hlt := n.toNat_lt
  have hint : (Int64.ofNat n.toNat).toInt = n.toNat := Int64.toInt_ofNat_of_lt (by omega)
  show toUInt32 (Int64.ofNat n.toNat) = some n
  rw [toUInt32, hint, if_pos ⟨by omega, by omega⟩, Int.toNat_natCast, UInt32.ofNat_toNat]

theorem int64?_eq_some_iff {n : UInt64} {m : Int64} :
    int64? n = some m ↔ n.toNat < 2 ^ 63 ∧ m = Int64.ofInt n.toNat := by
  rw [int64?, Group.toInt64]
  split
  · next h => exact ⟨fun heq => ⟨by omega, (Option.some.inj heq).symm⟩, fun heq => by rw [heq.2]⟩
  · next h => exact ⟨by rintro ⟨⟩, fun heq => absurd ⟨by omega, by omega⟩ h⟩

theorem toUInt64_ofInt {n : UInt64} (h : n.toNat < 2 ^ 63) :
    toUInt64 (Int64.ofInt n.toNat) = some n := by
  have hint : (Int64.ofInt (n.toNat : ℤ)).toInt = n.toNat :=
    Int64.toInt_ofInt_of_le (by omega) (by omega)
  rw [toUInt64, hint, if_pos (by omega), Int.toNat_natCast, UInt64.ofNat_toNat]

/-! ## Statements -/

section Rows

variable {C : Type} [DecidableEq C]

/-- The row of `INSERT INTO … (columns) VALUES (?, …)` with the values in the order of `bind`. -/
def bound (columns : List C) (values : List SqlValue) : C → SqlValue := fun c =>
  ((columns.zip values).lookup c).getD .null

/-- The row after `ON CONFLICT(key) DO UPDATE SET c = excluded.c, …`. -/
def doUpdate (set : List C) (old excluded : C → SqlValue) : C → SqlValue := fun c =>
  if c ∈ set then excluded c else old c

/-- The column at an index of `SELECT columns`, in the row with primary key `key` in column
`primary`. -/
def column (columns : List C) (primary : C) (key : Bytes) (row : C → SqlValue) (index : Nat) :
    SqlValue :=
  match columns[index]? with
  | none => .null
  | some c => if c = primary then .blob key else row c

end Rows

end Pizzini.Storage
