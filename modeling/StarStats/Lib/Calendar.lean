import Mathlib.Data.Int.Order.Basic

/-!
# The Gregorian calendar

Days are counted from the first of January of the year 0, year by year and month by month.
`Date.dayNumber_eq` is the count in one formula, for years that begin in March: there a leap day is
the last day of its year, and the lengths of the months have a linear pattern.
-/

namespace Calendar

def isLeap (y : Nat) : Bool := y % 4 == 0 && (y % 100 != 0 || y % 400 == 0)

def daysInMonth (y m : Nat) : Nat :=
  if m = 2 then if isLeap y then 29 else 28
  else if m = 4 ∨ m = 6 ∨ m = 9 ∨ m = 11 then 30
  else 31

/-- The days of the first months of a year. -/
def daysOfMonths (y : Nat) : Nat → Nat
  | 0 => 0
  | m + 1 => daysOfMonths y m + daysInMonth y (m + 1)

def daysInYear (y : Nat) : Nat := daysOfMonths y 12

def daysBeforeYear : Nat → Nat
  | 0 => 0
  | y + 1 => daysBeforeYear y + daysInYear y

structure Date where
  year : Nat
  month : Nat
  day : Nat
  month_pos : 1 ≤ month
  month_le : month ≤ 12
  day_pos : 1 ≤ day
  day_le : day ≤ daysInMonth year month

/-- The days before a date. -/
def Date.dayNumber (x : Date) : Nat :=
  daysBeforeYear x.year + daysOfMonths x.year (x.month - 1) + (x.day - 1)

theorem isLeap_iff (y : Nat) : isLeap y = true ↔ y % 4 = 0 ∧ (y % 100 ≠ 0 ∨ y % 400 = 0) := by
  simp [isLeap]

/-- The leap day, by the rule. -/
theorem leapDay_eq (y : Nat) :
    (if isLeap y then 1 else 0 : Int) =
      (if y % 4 = 0 then 1 else 0) - (if y % 100 = 0 then 1 else 0) +
        (if y % 400 = 0 then 1 else 0) := by
  by_cases hleap : isLeap y
  · have hrule := (isLeap_iff y).1 hleap
    rw [if_pos hleap, if_pos hrule.1]
    split <;> split <;> omega
  · have hrule := mt (isLeap_iff y).2 hleap
    rw [if_neg hleap]
    split <;> split <;> split <;> omega

theorem daysInYear_eq (y : Nat) : (daysInYear y : Int) = 365 + if isLeap y then 1 else 0 := by
  cases h : isLeap y <;> simp [daysInYear, daysOfMonths, daysInMonth, h]

/-! ## Years that begin in March -/

def marchYear (y m : Nat) : Int := if m ≤ 2 then (y : Int) - 1 else y

def marchMonth (m : Nat) : Nat := if 2 < m then m - 3 else m + 9

/-- The days since the first of January 1970, with the days and months counted on where the calendar
has no such day or month. -/
def unixDays (y m d : Nat) : Int :=
  365 * marchYear y m + marchYear y m / 4 - marchYear y m / 100 + marchYear y m / 400 +
    ((153 * marchMonth m + 2) / 5 : Nat) + d - 719469

theorem daysBeforeYear_eq (y : Nat) :
    (daysBeforeYear y : Int) = 365 * y + (y + 3) / 4 - (y + 99) / 100 + (y + 399) / 400 := by
  induction y with
  | zero => rfl
  | succ y ih =>
    have hfour : ((y + 1 : Nat) + 3 : Int) / 4 = (y + 3) / 4 + if y % 4 = 0 then 1 else 0 := by
      split <;> omega
    have hcentury : ((y + 1 : Nat) + 99 : Int) / 100 =
        (y + 99) / 100 + if y % 100 = 0 then 1 else 0 := by
      split <;> omega
    have hcycle : ((y + 1 : Nat) + 399 : Int) / 400 =
        (y + 399) / 400 + if y % 400 = 0 then 1 else 0 := by
      split <;> omega
    rw [daysBeforeYear, Int.natCast_add, ih, daysInYear_eq, leapDay_eq, hfour, hcentury, hcycle,
      Int.natCast_succ]
    omega

/-- The days of the months before `m`, from the pattern of the months from March on. -/
theorem daysOfMonths_eq {y m : Nat} (hpos : 1 ≤ m) (hle : m ≤ 12) :
    (daysOfMonths y (m - 1) : Int) =
      if m ≤ 2 then (((153 * marchMonth m + 2) / 5 : Nat) : Int) - 306
      else (((153 * marchMonth m + 2) / 5 : Nat) : Int) + 59 + (if isLeap y then 1 else 0) := by
  have hmonths : m = 1 ∨ m = 2 ∨ m = 3 ∨ m = 4 ∨ m = 5 ∨ m = 6 ∨ m = 7 ∨ m = 8 ∨ m = 9 ∨ m = 10 ∨
      m = 11 ∨ m = 12 := by omega
  rcases hmonths with rfl | rfl | rfl | rfl | rfl | rfl | rfl | rfl | rfl | rfl | rfl | rfl
  all_goals cases h : isLeap y <;> simp [daysOfMonths, daysInMonth, marchMonth, h]

/-- The count of a date. -/
theorem Date.dayNumber_eq (x : Date) :
    (x.dayNumber : Int) = unixDays x.year x.month x.day + 719528 := by
  have hday : ((x.day - 1 : Nat) : Int) = x.day - 1 := by
    have := x.day_pos
    omega
  rw [dayNumber, Int.natCast_add, Int.natCast_add, daysBeforeYear_eq,
    daysOfMonths_eq x.month_pos x.month_le, hday, unixDays, marchYear]
  split
  case isTrue =>
    have hfour : ((x.year : Int) - 1) / 4 = (x.year + 3) / 4 - 1 := by omega
    have hcentury : ((x.year : Int) - 1) / 100 = (x.year + 99) / 100 - 1 := by omega
    have hcycle : ((x.year : Int) - 1) / 400 = (x.year + 399) / 400 - 1 := by omega
    rw [hfour, hcentury, hcycle]
    omega
  case isFalse =>
    have hfour : ((x.year : Int) + 3) / 4 = x.year / 4 + 1 - if x.year % 4 = 0 then 1 else 0 := by
      split <;> omega
    have hcentury : ((x.year : Int) + 99) / 100 =
        x.year / 100 + 1 - if x.year % 100 = 0 then 1 else 0 := by
      split <;> omega
    have hcycle : ((x.year : Int) + 399) / 400 =
        x.year / 400 + 1 - if x.year % 400 = 0 then 1 else 0 := by
      split <;> omega
    rw [hfour, hcentury, hcycle, leapDay_eq]
    omega

/-! ## The order of dates -/

theorem daysOfMonths_mono (y : Nat) {m n : Nat} (h : m ≤ n) :
    daysOfMonths y m ≤ daysOfMonths y n := by
  induction h with
  | refl => exact Nat.le_refl _
  | step _ ih => exact Nat.le_trans ih (Nat.le_add_right _ _)

theorem daysBeforeYear_mono {y z : Nat} (h : y ≤ z) : daysBeforeYear y ≤ daysBeforeYear z := by
  induction h with
  | refl => exact Nat.le_refl _
  | step _ ih => exact Nat.le_trans ih (Nat.le_add_right _ _)

/-- A date is in its month. -/
theorem Date.daysOfMonths_lt (x : Date) :
    daysOfMonths x.year (x.month - 1) + (x.day - 1) < daysOfMonths x.year x.month := by
  obtain ⟨m, hm⟩ : ∃ m, x.month = m + 1 := ⟨x.month - 1, (Nat.sub_add_cancel x.month_pos).symm⟩
  have hday := x.day_le
  have hpos := x.day_pos
  rw [hm] at hday ⊢
  rw [Nat.add_sub_cancel, daysOfMonths]
  omega

/-- The days are numbered in the order of the dates. -/
theorem Date.dayNumber_lt {x y : Date}
    (h : x.year < y.year ∨ x.year = y.year ∧
      (x.month < y.month ∨ x.month = y.month ∧ x.day < y.day)) :
    x.dayNumber < y.dayNumber := by
  have hx := x.daysOfMonths_lt
  rw [dayNumber, dayNumber]
  rcases h with hyear | ⟨hyear, hmonth | ⟨hmonth, hday⟩⟩
  · have hin := daysOfMonths_mono x.year x.month_le
    have hle := daysBeforeYear_mono (Nat.succ_le_of_lt hyear)
    rw [Nat.succ_eq_add_one, daysBeforeYear, daysInYear] at hle
    omega
  · have hle := daysOfMonths_mono x.year (Nat.le_sub_one_of_lt hmonth)
    rw [← hyear]
    omega
  · have hpos := x.day_pos
    rw [← hyear, ← hmonth]
    omega

end Calendar
