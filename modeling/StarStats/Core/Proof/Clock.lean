import Mathlib.Algebra.Ring.Int.Defs
import StarStats.Core.Clock
import StarStats.Lib.Calendar

/-!
# The arithmetic of the clock

`secsChecked_iff`: when no operation overflows, and what the seconds are then.
`secs_of_checked`: without an overflow the wrapping arithmetic has the same result.
-/

namespace StarStats

open Checked Calendar

/-! ## The day -/

theorem marchYear_bounds (y m : Nat) : -1 ≤ marchYear y m ∧ marchYear y m ≤ y := by
  unfold marchYear
  split <;> omega

/-- The days from the era, the year of the era, the month counted from March and the day. -/
def daysInEra (era yoe shifted d : Int) : Option Int := do
  let scaled ← u64 (153 * shifted)
  let scaled ← u64 (scaled + 2)
  let doy ← u64 (scaled / 5 + d)
  let doy ← u64 (doy - 1)
  let yoeDays ← u64 (yoe * 365)
  let yoeDays ← u64 (yoeDays + yoe / 4)
  let yoeDays ← u64 (yoeDays - yoe / 100)
  let doe ← u64 (yoeDays + doy)
  let eraDays ← i64 (era * 146097)
  let days ← i64 (eraDays + asI64 doe)
  i64 (days - 719468)

/-- Nothing overflows before the days of the year are counted. -/
theorem daysFromCivilChecked_eq {y m d : Nat} (hy : y < 2 ^ 63) (hm : m < 2 ^ 63)
    (hd : d < 2 ^ 63) :
    daysFromCivilChecked y m d =
      daysInEra (marchYear y m / 400) (marchYear y m % 400) (marchMonth m) d := by
  have hbounds := marchYear_bounds y m
  have hyear : (if (m : Int) ≤ 2 then i64 ((y : Int) - 1) else some (y : Int)) =
      some (marchYear y m) := by
    unfold marchYear
    split
    · rw [if_pos (by omega)]
      exact i64_of ⟨by omega, by omega⟩
    · rw [if_neg (by omega)]
  generalize hY : marchYear y m = Y at *
  have hbase : (if 0 ≤ Y then some Y else i64 (Y - 399)) = some (if 0 ≤ Y then Y else Y - 399) := by
    split
    · rfl
    · exact i64_of ⟨by omega, by omega⟩
  have hera : (if 0 ≤ Y then Y else Y - 399).tdiv 400 = Y / 400 := by
    have hsign : Int.sign 400 = 1 := rfl
    rw [Int.tdiv_eq_ediv]
    split <;> split <;> omega
  have hyears : i64 (Y / 400 * 400) = some (Y / 400 * 400) := i64_of ⟨by omega, by omega⟩
  have hyoe : i64 (Y - Y / 400 * 400) = some (Y % 400) := by
    rw [i64_of ⟨by omega, by omega⟩]
    congr 1
    omega
  have hyoeU : asU64 (Y % 400) = Y % 400 := asU64_of ⟨by omega, by omega⟩
  have hmU : asU64 m = m := asU64_of ⟨by omega, by omega⟩
  have hdU : asU64 d = d := asU64_of ⟨by omega, by omega⟩
  have hshift : (if 2 < (m : Int) then u64 ((m : Int) - 3) else u64 ((m : Int) + 9)) =
      some (marchMonth m : Int) := by
    unfold marchMonth
    split
    · rw [if_pos (by omega), u64_of ⟨by omega, by omega⟩]
      congr 1
      omega
    · rw [if_neg (by omega), u64_of ⟨by omega, by omega⟩]
      rfl
  unfold daysFromCivilChecked
  rw [hyear, Option.bind_eq_bind, Option.bind_some, hbase, Option.bind_some]
  dsimp only
  rw [hera, hyears, Option.bind_some, hyoe, Option.bind_some]
  rw [hyoeU, hmU, hdU, hshift, Option.bind_some]
  rfl

/-- The day of the era of 400 years. -/
def dayOfEra (y m d : Nat) : Int := unixDays y m d + 719468 - 146097 * (marchYear y m / 400)

/-- The day, when the day of the era is cast to `i64`. -/
def unixDays64 (y m d : Nat) : Int :=
  if dayOfEra y m d < 2 ^ 63 then unixDays y m d else unixDays y m d - 2 ^ 64

/-- An era of 400 years has whole cycles of leap years. -/
theorem leapDays_of_era (y : Int) :
    y / 4 = 100 * (y / 400) + y % 400 / 4 ∧ y / 100 = 4 * (y / 400) + y % 400 / 100 := by
  omega

/-- When nothing overflows, and the day then. -/
theorem daysFromCivilChecked_iff {y m d : Nat} (hy : y < 2 ^ 63) (hm : m < 2 ^ 63)
    (hd : d < 2 ^ 63) {v : Int} :
    daysFromCivilChecked y m d = some v ↔
      (¬ (m = 3 ∧ d = 0) ∧ 153 * marchMonth m + 2 < 2 ^ 64 ∧
        146097 * (marchYear y m / 400) < 2 ^ 63 ∧ InI64 (unixDays64 y m d + 719468) ∧
        InI64 (unixDays64 y m d)) ∧
      v = unixDays64 y m d := by
  have hbounds := marchYear_bounds y m
  have hmarch : marchMonth m = 0 ↔ m = 3 := by unfold marchMonth; split <;> omega
  rw [daysFromCivilChecked_eq hy hm hd]
  unfold daysInEra
  simp only [i64_bind, u64_bind, i64_eq_some]
  unfold unixDays64 dayOfEra unixDays asI64 InI64 InU64
  generalize marchYear y m = Y at *
  generalize marchMonth m = M at *
  have hcast : (((153 * M + 2) / 5 : Nat) : Int) = (153 * (M : Int) + 2) / 5 := by omega
  rw [hcast]
  obtain ⟨hfour, hhundred⟩ := leapDays_of_era Y
  have hleap : 0 ≤ Y % 400 / 100 ∧ Y % 400 / 100 ≤ Y % 400 / 4 ∧ Y % 400 / 4 < 100 := by omega
  have hyoe : Y = 400 * (Y / 400) + Y % 400 := by omega
  have hyoe' : 0 ≤ Y % 400 ∧ Y % 400 < 400 := by omega
  generalize Y % 400 / 4 = q at *
  generalize Y % 400 / 100 = r at *
  generalize Y / 4 = q' at *
  generalize Y / 100 = r' at *
  generalize Y % 400 = yoe at *
  generalize Y / 400 = era at *
  constructor
  · rintro ⟨h1, h2, h3, h4, h5, h6, h7, h8, h9, h10, h11, h12⟩
    split at h10 <;> split <;> omega
  · rintro ⟨⟨h1, h2, h3, h4, h5⟩, rfl⟩
    have hdoy : 1 ≤ (153 * (M : Int) + 2) / 5 + d := by omega
    refine ⟨by omega, by omega, by omega, by omega, by omega, by omega, by omega, by omega,
      by omega, ?_, ?_, ?_⟩
    all_goals split at h4 <;> split <;> omega

/-! ## The day as it wraps -/

theorem toInt_shiftedYear {y m : Int64} {year : Int}
    (h : (if m.toInt ≤ 2 then i64 (y.toInt - 1) else some y.toInt) = some year) :
    (if m ≤ 2 then y - 1 else y).toInt = year := by
  have htwo : m ≤ 2 ↔ m.toInt ≤ 2 := Int64.le_iff_toInt_le
  split at h
  case isTrue hm =>
    obtain ⟨hin, rfl⟩ := i64_eq_some.1 h
    rw [if_pos (htwo.2 hm), toInt_sub hin]
    rfl
  case isFalse hm =>
    rw [if_neg (mt htwo.1 hm)]
    exact Option.some.inj h

theorem toInt_eraBase {y : Int64} {base : Int}
    (h : (if 0 ≤ y.toInt then some y.toInt else i64 (y.toInt - 399)) = some base) :
    (if 0 ≤ y then y else y - 399).toInt = base := by
  have hzero : 0 ≤ y ↔ 0 ≤ y.toInt := Int64.le_iff_toInt_le
  split at h
  case isTrue hy =>
    rw [if_pos (hzero.2 hy)]
    exact Option.some.inj h
  case isFalse hy =>
    obtain ⟨hin, rfl⟩ := i64_eq_some.1 h
    rw [if_neg (mt hzero.1 hy), toInt_sub hin]
    rfl

theorem toNat_shiftedMonth {m : UInt64} {shifted : Int}
    (h : (if (2 : Int) < m.toNat then u64 ((m.toNat : Int) - 3) else u64 ((m.toNat : Int) + 9)) =
      some shifted) :
    ((if 2 < m then m - 3 else m + 9).toNat : Int) = shifted := by
  have htwo : 2 < m ↔ (2 : Int) < m.toNat := by
    rw [UInt64.lt_iff_toNat_lt]
    exact Int.ofNat_lt.symm
  split at h
  case isTrue hm =>
    obtain ⟨hin, rfl⟩ := u64_eq_some.1 h
    rw [if_pos (htwo.2 hm)]
    exact toNat_sub hin
  case isFalse hm =>
    obtain ⟨hin, rfl⟩ := u64_eq_some.1 h
    rw [if_neg (mt htwo.1 hm)]
    exact toNat_add hin

theorem toNat_dayOfYear {m d : UInt64} (h1 : InU64 (153 * m.toNat))
    (h2 : InU64 (153 * (m.toNat : Int) + 2))
    (h3 : InU64 ((153 * (m.toNat : Int) + 2) / 5 + d.toNat))
    (h4 : InU64 ((153 * (m.toNat : Int) + 2) / 5 + d.toNat - 1)) :
    (((153 * m + 2) / 5 + d - 1).toNat : Int) = (153 * (m.toNat : Int) + 2) / 5 + d.toNat - 1 := by
  have hscaled : ((153 * m).toNat : Int) = 153 * m.toNat := toNat_mul h1
  have hplus : ((153 * m + 2).toNat : Int) = 153 * m.toNat + 2 := by
    rw [← hscaled] at h2 ⊢
    exact toNat_add h2
  have hday : (((153 * m + 2) / 5 + d).toNat : Int) =
      (153 * (m.toNat : Int) + 2) / 5 + d.toNat := by
    rw [← hplus] at h3 ⊢
    exact toNat_add h3
  rw [← hday] at h4 ⊢
  exact toNat_sub h4

theorem toNat_daysOfYears {yoe : UInt64} (h1 : InU64 (yoe.toNat * 365))
    (h2 : InU64 (yoe.toNat * 365 + (yoe.toNat : Int) / 4))
    (h3 : InU64 (yoe.toNat * 365 + (yoe.toNat : Int) / 4 - (yoe.toNat : Int) / 100)) :
    ((yoe * 365 + yoe / 4 - yoe / 100).toNat : Int) =
      yoe.toNat * 365 + (yoe.toNat : Int) / 4 - (yoe.toNat : Int) / 100 := by
  have hdays : ((yoe * 365).toNat : Int) = yoe.toNat * 365 := toNat_mul h1
  have hleap : ((yoe * 365 + yoe / 4).toNat : Int) = yoe.toNat * 365 + (yoe.toNat : Int) / 4 := by
    rw [← hdays] at h2 ⊢
    exact toNat_add h2
  rw [← hleap] at h3 ⊢
  exact toNat_sub h3

/-- Without an overflow the wrapping arithmetic has the checked result. -/
theorem daysFromCivil_of_checked {y m d : Int64} {v : Int}
    (h : daysFromCivilChecked y.toInt m.toInt d.toInt = some v) :
    (daysFromCivil y m d).toInt = v := by
  unfold daysFromCivilChecked at h
  obtain ⟨year, hyear, h⟩ := Option.bind_eq_some_iff.1 h
  have hY := toInt_shiftedYear hyear
  unfold daysFromCivil
  generalize (if m ≤ 2 then y - 1 else y) = Y at hY
  subst hY
  obtain ⟨base, hbase, h⟩ := Option.bind_eq_some_iff.1 h
  have hB := toInt_eraBase hbase
  dsimp only
  generalize (if 0 ≤ Y then Y else Y - 399) = B at hB
  subst hB
  -- the era and its year
  have hera : (B / 400).toInt = B.toInt.tdiv 400 := Int64.toInt_div_of_ne_right B 400 (by decide)
  rw [← hera] at h
  generalize B / 400 = era at *
  obtain ⟨hin1, h⟩ := i64_bind.1 h
  obtain ⟨hin2, h⟩ := i64_bind.1 h
  have hyears : (era * 400).toInt = era.toInt * 400 := toInt_mul hin1
  rw [← hyears] at h hin2
  have hyoe : (Y - era * 400).toInt = Y.toInt - (era * 400).toInt := toInt_sub hin2
  rw [← hyoe, ← toNat_toUInt64, ← toNat_toUInt64, ← toNat_toUInt64] at h
  generalize (Y - era * 400).toUInt64 = yoe at *
  generalize m.toUInt64 = mU at *
  generalize d.toUInt64 = dU at *
  obtain ⟨shifted, hshifted, h⟩ := Option.bind_eq_some_iff.1 h
  have hM := toNat_shiftedMonth hshifted
  generalize (if 2 < mU then mU - 3 else mU + 9) = M at *
  subst hM
  -- the day of the era, and the day
  simp only [u64_bind, i64_bind, i64_eq_some] at h
  obtain ⟨h1, h2, h3, h4, h5, h6, h7, h8, h9, h10, h11, rfl⟩ := h
  have hdoy := toNat_dayOfYear h1 h2 h3 h4
  have hyears := toNat_daysOfYears h5 h6 h7
  rw [← hyears, ← hdoy] at h8 h10 h11 ⊢
  rw [← toNat_add h8, ← toInt_toInt64] at h10 h11 ⊢
  generalize (yoe * 365 + yoe / 4 - yoe / 100 + ((153 * M + 2) / 5 + dU - 1)).toInt64 = doe at *
  have hdays : (era * 146097).toInt = era.toInt * 146097 := toInt_mul h9
  rw [← hdays] at h10 h11 ⊢
  rw [← toInt_add h10] at h11 ⊢
  exact toInt_sub h11

/-! ## The second -/

namespace IsoComponents

/-- The numbers are in `i64`. -/
structure InRange (c : IsoComponents) : Prop where
  year : c.year < 2 ^ 63
  month : c.month < 2 ^ 63
  day : c.day < 2 ^ 63
  hour : c.hour < 2 ^ 63
  minute : c.minute < 2 ^ 63
  second : c.second < 2 ^ 63

/-- The exact count of seconds, but for the cast of the day of the era. -/
def unixSecs64 (c : IsoComponents) : Int :=
  86400 * unixDays64 c.year c.month c.day + 3600 * c.hour + 60 * c.minute + c.second

/-- The bounds on the six numbers. -/
structure Fits (c : IsoComponents) : Prop where
  /-- The first day of the year that begins in March has none before it. -/
  day : ¬ (c.month = 3 ∧ c.day = 0)
  month : 153 * marchMonth c.month + 2 < 2 ^ 64
  year : 146097 * (marchYear c.year c.month / 400) < 2 ^ 63
  hour : 3600 * c.hour < 2 ^ 63
  minute : 60 * c.minute < 2 ^ 63
  early : -2 ^ 63 ≤ 86400 * unixDays64 c.year c.month c.day
  late : c.unixSecs64 < 2 ^ 63

/-- The bounds are the ones that no operation leaves. -/
theorem secsChecked_iff {c : IsoComponents} (h : c.InRange) {v : Int} :
    c.secsChecked = some v ↔ c.Fits ∧ v = c.unixSecs64 := by
  unfold secsChecked
  constructor
  · intro hsome
    obtain ⟨days, hday, hrest⟩ := Option.bind_eq_some_iff.1 hsome
    obtain ⟨⟨hmarch, hmonth, hyear, -, -⟩, rfl⟩ :=
      (daysFromCivilChecked_iff h.year h.month h.day).1 hday
    simp only [i64_bind, i64_eq_some, InI64] at hrest
    obtain ⟨hlow, hhour, hsum, hminute, hsum', hlast, rfl⟩ := hrest
    refine ⟨⟨hmarch, hmonth, hyear, ?_, ?_, ?_, ?_⟩, ?_⟩
    all_goals try unfold unixSecs64
    all_goals omega
  · rintro ⟨hfit, rfl⟩
    refine Option.bind_eq_some_iff.2 ⟨unixDays64 c.year c.month c.day, ?_, ?_⟩
    · refine (daysFromCivilChecked_iff h.year h.month h.day).2
        ⟨⟨hfit.day, hfit.month, hfit.year, ?_, ?_⟩, rfl⟩
      all_goals
        have hlow := hfit.early
        have hlate := hfit.late
        unfold unixSecs64 at hlate
        unfold InI64
        omega
    · have hlow := hfit.early
      have hlate := hfit.late
      have hhour := hfit.hour
      have hminute := hfit.minute
      unfold unixSecs64 at hlate ⊢
      simp only [i64_bind, i64_eq_some, InI64]
      omega

/-- The seconds as they wrap. -/
def secs (c : IsoComponents) : Int64 :=
  daysFromCivil (.ofNat c.year) (.ofNat c.month) (.ofNat c.day) * 86400 + .ofNat c.hour * 3600 +
    .ofNat c.minute * 60 + .ofNat c.second

/-- Without an overflow the wrapping arithmetic has the checked result. -/
theorem secs_of_checked {c : IsoComponents} (h : c.InRange) {v : Int}
    (hv : c.secsChecked = some v) : c.secs.toInt = v := by
  have hyear := Int64.toInt_ofNat_of_lt h.year
  have hmonth := Int64.toInt_ofNat_of_lt h.month
  have hday := Int64.toInt_ofNat_of_lt h.day
  have hhour := Int64.toInt_ofNat_of_lt h.hour
  have hminute := Int64.toInt_ofNat_of_lt h.minute
  have hsecond := Int64.toInt_ofNat_of_lt h.second
  unfold secsChecked at hv
  obtain ⟨days, hdays, hv⟩ := Option.bind_eq_some_iff.1 hv
  rw [← hyear, ← hmonth, ← hday] at hdays
  have hD := daysFromCivil_of_checked hdays
  rw [← hhour, ← hminute, ← hsecond] at hv
  unfold secs
  generalize daysFromCivil (.ofNat c.year) (.ofNat c.month) (.ofNat c.day) = D at *
  subst hD
  generalize Int64.ofNat c.hour = H at *
  generalize Int64.ofNat c.minute = M at *
  generalize Int64.ofNat c.second = S at *
  simp only [i64_bind, i64_eq_some] at hv
  obtain ⟨h1, h2, h3, h4, h5, h6, rfl⟩ := hv
  have e1 : (D * 86400).toInt = D.toInt * 86400 := toInt_mul h1
  have e2 : (H * 3600).toInt = H.toInt * 3600 := toInt_mul h2
  have e4 : (M * 60).toInt = M.toInt * 60 := toInt_mul h4
  rw [← e1, ← e2] at h3 h5 h6 ⊢
  rw [← e4] at h5 h6 ⊢
  rw [← toInt_add h3] at h5 h6 ⊢
  rw [← toInt_add h5] at h6 ⊢
  exact toInt_add h6

end IsoComponents

end StarStats
