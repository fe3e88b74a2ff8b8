import Mathlib

/-!
# The proleptic Gregorian calendar

Dates with a month and a day of that month, and their numbers: the days since the first of January
1970 (`Date.number`). The lengths of the years and months are what the number counts
(`daysBeforeYear_succ`, `daysBeforeMonth_succ`), so that a later date has a larger number
(`number_lt_number`) and a number belongs to one date only (`number_injective`).
-/

namespace RespBench.Lib.Calendar

def IsLeap (y : ℤ) : Prop := 4 ∣ y ∧ (100 ∣ y → 400 ∣ y)

instance : DecidablePred IsLeap :=
  fun y => inferInstanceAs (Decidable (4 ∣ y ∧ (100 ∣ y → 400 ∣ y)))

def yearLength (y : ℤ) : ℤ := if IsLeap y then 366 else 365

def monthLength (y : ℤ) : ℕ → ℕ
  | 2 => if IsLeap y then 29 else 28
  | 4 | 6 | 9 | 11 => 30
  | _ => 31

/-- The days between the first of January of the year 1 and that of another year. -/
def daysBeforeYear (y : ℤ) : ℤ := 365 * (y - 1) + (y - 1) / 4 - (y - 1) / 100 + (y - 1) / 400

/-- The days of a year before the first of a month. -/
def daysBeforeMonth (y : ℤ) : ℕ → ℕ
  | 0 | 1 => 0
  | m + 2 => daysBeforeMonth y (m + 1) + monthLength y (m + 1)

/-- A date, with a month of the year and a day of the month. -/
@[ext]
structure Date where
  year : ℤ
  month : ℕ
  day : ℕ
  month_range : 1 ≤ month ∧ month ≤ 12
  day_range : 1 ≤ day ∧ day ≤ monthLength year month

namespace Date

/-- The days since the first of January 1970. -/
def number (d : Date) : ℤ :=
  daysBeforeYear d.year - daysBeforeYear 1970 + (daysBeforeMonth d.year d.month + (d.day - 1))

/-- Years are compared first, then months, then days. -/
instance : LT Date where
  lt d e := d.year < e.year ∨
    d.year = e.year ∧ (d.month < e.month ∨ d.month = e.month ∧ d.day < e.day)

end Date

/-! ## Years and months -/

/-- A year has the length of its kind. -/
theorem daysBeforeYear_succ (y : ℤ) : daysBeforeYear (y + 1) = daysBeforeYear y + yearLength y := by
  unfold daysBeforeYear yearLength
  split
  · next hleap =>
    obtain ⟨h4, h100⟩ := hleap
    by_cases h : 100 ∣ y
    · have := h100 h
      omega
    · omega
  · next hleap =>
    unfold IsLeap at hleap
    omega

/-- A year has days. -/
lemma yearLength_pos (y : ℤ) : 0 < yearLength y := by
  unfold yearLength
  split <;> norm_num

/-- The days before a year increase. -/
lemma daysBeforeYear_mono : Monotone daysBeforeYear :=
  monotone_int_of_le_succ fun y => by
    rw [daysBeforeYear_succ]
    exact le_add_of_nonneg_right (yearLength_pos y).le

/-- The days before the next month. -/
lemma daysBeforeMonth_succ (y : ℤ) {m : ℕ} (hm : 1 ≤ m) :
    daysBeforeMonth y (m + 1) = daysBeforeMonth y m + monthLength y m := by
  obtain ⟨m, rfl⟩ : ∃ k, m = k + 1 := ⟨m - 1, by omega⟩
  rfl

/-- The days before a month increase. -/
lemma daysBeforeMonth_mono (y : ℤ) : Monotone (daysBeforeMonth y) := by
  refine monotone_nat_of_le_succ fun m => ?_
  cases m with
  | zero => exact le_rfl
  | succ m => exact Nat.le_add_right _ _

/-- The months of a year make up the year. -/
lemma daysBeforeMonth_end (y : ℤ) : (daysBeforeMonth y 13 : ℤ) = yearLength y := by
  simp only [daysBeforeMonth, monthLength, yearLength]
  split <;> rfl

/-! ## Numbers of dates -/

namespace Date

/-- The days of the year before a date. -/
def dayOfYear (d : Date) : ℕ := daysBeforeMonth d.year d.month + (d.day - 1)

/-- The number of a date counts the days since 1970. -/
lemma number_eq (d : Date) : d.number = daysBeforeYear d.year - daysBeforeYear 1970
    + d.dayOfYear := by
  have := d.day_range.1
  unfold number dayOfYear
  push_cast [this]
  ring

/-- A date comes before the next month. -/
lemma dayOfYear_lt_next (d : Date) : d.dayOfYear < daysBeforeMonth d.year (d.month + 1) := by
  have := d.day_range
  rw [daysBeforeMonth_succ _ d.month_range.1, dayOfYear]
  omega

/-- A date lies in its year. -/
lemma dayOfYear_lt (d : Date) : (d.dayOfYear : ℤ) < yearLength d.year := by
  rw [← daysBeforeMonth_end]
  exact_mod_cast d.dayOfYear_lt_next.trans_le
    (daysBeforeMonth_mono _ (Nat.succ_le_succ d.month_range.2))

/-- A later date has a larger number. -/
theorem number_lt_number {d e : Date} (h : d < e) : d.number < e.number := by
  rw [number_eq, number_eq]
  rcases h with hyear | ⟨hyear, hmonth | ⟨hmonth, hday⟩⟩
  · have hlt := d.dayOfYear_lt
    have hnext : daysBeforeYear (d.year + 1) ≤ daysBeforeYear e.year := daysBeforeYear_mono hyear
    rw [daysBeforeYear_succ] at hnext
    omega
  · have hlt := d.dayOfYear_lt_next
    have hnext : daysBeforeMonth d.year (d.month + 1) ≤ daysBeforeMonth e.year e.month := by
      rw [hyear]
      exact daysBeforeMonth_mono _ hmonth
    rw [hyear, add_lt_add_iff_left, Nat.cast_lt]
    exact hlt.trans_le (hnext.trans (Nat.le_add_right _ _))
  · have := d.day_range.1
    rw [hyear, add_lt_add_iff_left, Nat.cast_lt, dayOfYear, dayOfYear, hyear, hmonth]
    omega

/-- Dates are in an order. -/
lemma lt_or_eq_or_gt (d e : Date) : d < e ∨ d = e ∨ e < d := by
  rcases lt_trichotomy d.year e.year with hyear | hyear | hyear
  · exact .inl (.inl hyear)
  · rcases lt_trichotomy d.month e.month with hmonth | hmonth | hmonth
    · exact .inl (.inr ⟨hyear, .inl hmonth⟩)
    · rcases lt_trichotomy d.day e.day with hday | hday | hday
      · exact .inl (.inr ⟨hyear, .inr ⟨hmonth, hday⟩⟩)
      · exact .inr (.inl (Date.ext hyear hmonth hday))
      · exact .inr (.inr (.inr ⟨hyear.symm, .inr ⟨hmonth.symm, hday⟩⟩))
    · exact .inr (.inr (.inr ⟨hyear.symm, .inl hmonth⟩))
  · exact .inr (.inr (.inl hyear))

/-- Dates are ordered as their numbers. -/
theorem number_lt_iff {d e : Date} : d.number < e.number ↔ d < e := by
  refine ⟨fun h => ?_, number_lt_number⟩
  rcases lt_or_eq_or_gt d e with hlt | rfl | hgt
  · exact hlt
  · exact absurd h (lt_irrefl _)
  · exact absurd (number_lt_number hgt) h.not_gt

/-- A number belongs to one date. -/
theorem number_injective : Function.Injective number := by
  intro d e h
  rcases lt_or_eq_or_gt d e with hlt | heq | hgt
  · exact absurd h (number_lt_number hlt).ne
  · exact heq
  · exact absurd h (number_lt_number hgt).ne'

end Date

end RespBench.Lib.Calendar
