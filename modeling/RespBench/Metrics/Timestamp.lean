import RespBench.Lib.Calendar
import RespBench.Lib.Text

/-!
# Timestamps of the Rust engine

`format_iso8601` writes the milliseconds since 1970 as a date and a time of day
(`ndjson_writer.rs`). Its `civil_from_days` counts the days of eras of 400 years that begin in
March: `exists_place` finds the place of a day in its era, `yearOfEra_eq` and `civil_eq` follow the
code to the year and the month. `date` is the date that the code computes, and `date_number` says
that it is the date of the calendar with the same number of days.

Words of 64 bits are `UInt64`, and `i64` is not left by any partial result for the days of a `u64`,
which are fewer than 2 ^ 38.
-/

namespace RespBench.Metrics.Rust
open RespBench.Lib.Calendar
open RespBench.Lib.Text (pad)

/-- `as u32`. -/
def asU32 (x : ℤ) : ℕ := (x % 2 ^ 32).toNat

/-- Quotients are truncated. -/
def civil_from_days (z : ℤ) : ℤ × ℕ × ℕ :=
  let z := z + 719468
  let era := (if z ≥ 0 then z else z - 146096).tdiv 146097
  let doe := z - era * 146097
  let yoe := (doe - doe.tdiv 1460 + doe.tdiv 36524 - doe.tdiv 146096).tdiv 365
  let y := yoe + era * 400
  let doy := doe - (365 * yoe + yoe.tdiv 4 - yoe.tdiv 100)
  let mp := (5 * doy + 2).tdiv 153
  let d := asU32 (doy - (153 * mp + 2).tdiv 5 + 1)
  let m := asU32 (if mp < 10 then mp + 3 else mp - 9)
  let year := if m ≤ 2 then y + 1 else y
  (year, m, d)

/-- `{:0width}` of a signed integer. -/
def padSigned (width : ℕ) (n : ℤ) : List Char :=
  if n < 0 then '-' :: pad (width - 1) n.natAbs else pad width n.natAbs

/-- `{:04}-{:02}-{:02}T{:02}:{:02}:{:02}.{:03}Z`. -/
def isoText (year : ℤ) (month day hour minute second millis : ℕ) : List Char :=
  padSigned 4 year ++ '-' :: pad 2 month ++ '-' :: pad 2 day ++ 'T' :: pad 2 hour ++
    ':' :: pad 2 minute ++
    ':' :: pad 2 second ++ '.' :: pad 3 millis ++ ['Z']

def format_iso8601 (epoch_millis : UInt64) : List Char :=
  let total_secs := epoch_millis / 1000
  let millis := epoch_millis % 1000
  let days : ℤ := (total_secs / 86400).toNat
  let secs_of_day := total_secs % 86400
  let hour := secs_of_day / 3600
  let minute := secs_of_day % 3600 / 60
  let second := secs_of_day % 60
  let (year, month, day) := civil_from_days days
  isoText year month day hour.toNat minute.toNat second.toNat millis.toNat

/-! ## Eras -/

/-- The day of an era, in its century, in a cycle of four years of this and in a year of
this. The last year of a cycle may have one day more, but the last one of a century only if
it is the last of the era. -/
structure Place (doe century cycle place doy : ℤ) : Prop where
  sum : doe = 36524 * century + 1461 * cycle + 365 * place + doy
  century_range : 0 ≤ century ∧ century ≤ 3
  cycle_range : 0 ≤ cycle ∧ cycle ≤ 24
  place_range : 0 ≤ place ∧ place ≤ 3
  doy_range : 0 ≤ doy ∧ (doy ≤ 364 ∨ doy = 365 ∧ place = 3 ∧ (cycle = 24 → century = 3))

/-- A day of an era lies in a century of it. -/
lemma exists_century {doe : ℤ} (h0 : 0 ≤ doe) (h : doe ≤ 146096) : ∃ century rest :
    ℤ, doe = 36524 * century + rest ∧
    (0 ≤ century ∧ century ≤ 3) ∧ 0 ≤ rest ∧ (rest ≤ 36523 ∨ rest = 36524 ∧ century = 3) := by
  rcases eq_or_ne doe 146096 with rfl | hne
  · exact ⟨3, 36524, by omega⟩
  · exact ⟨doe / 36524, doe % 36524, by omega⟩

/-- A day of a century lies in a year of a cycle of four. -/
lemma exists_cycle {rest : ℤ} (h0 : 0 ≤ rest) (h : rest ≤ 36524) : ∃ cycle place doy : ℤ,
    rest = 1461 * cycle + 365 * place + doy ∧ (0 ≤ cycle ∧ cycle ≤ 24) ∧
    (0 ≤ place ∧ place ≤ 3) ∧ 0 ≤ doy ∧
      (doy ≤ 364 ∨ doy = 365 ∧ place = 3) := by
  rcases eq_or_ne (rest % 1461) 1460 with heq | hne
  · exact ⟨rest / 1461, 3, 365, by omega⟩
  · exact ⟨rest / 1461, rest % 1461 / 365, rest % 1461 % 365, by omega⟩

/-- A day of an era has a place. -/
lemma exists_place {doe : ℤ} (h0 : 0 ≤ doe) (h : doe ≤ 146096) :
    ∃ century cycle place doy, Place doe century cycle place doy := by
  obtain ⟨century, rest, hrest, hcentury, hrest0, hlast⟩ := exists_century h0 h
  obtain ⟨cycle, place, doy, hdoy, hcycle, hplace, hdoy0, hleap⟩ := exists_cycle hrest0 (by omega)
  exact ⟨century, cycle, place, doy, by omega, hcentury, hcycle, hplace, hdoy0, by omega⟩

section Place
variable {doe century cycle place doy : ℤ} (h : Place doe century cycle place doy)
include h

/-- The year of the era, as the code computes it. -/
lemma yearOfEra_eq :
    (doe - doe.tdiv 1460 + doe.tdiv 36524 - doe.tdiv 146096).tdiv 365 = 100 * century + 4
      * cycle + place := by
  obtain ⟨hsum, hcentury, hcycle, hplace, hdoy⟩ := h
  have h0 : 0 ≤ doe := by omega
  rw [Int.tdiv_eq_ediv_of_nonneg h0, Int.tdiv_eq_ediv_of_nonneg h0, Int.tdiv_eq_ediv_of_nonneg h0,
    Int.tdiv_eq_ediv_of_nonneg (by omega)]
  -- each quotient counts the cycles, centuries and eras that are over, or one more on a last day
  have hcycles : doe / 1460 = 25 * century + cycle ∧
    365 * place + doy + 24 * century + cycle < 1460 ∨
      doe / 1460 = 25 * century + cycle + 1 ∧ place = 3 ∧
        365 ≤ doy + 24 * century + cycle := by omega
  have hcenturies : doe / 36524 = century ∧ ¬ (cycle = 24 ∧ doy = 365) ∨ doe / 36524 = 4 ∧
    doe = 146096 := by omega
  have heras : doe / 146096 = 0 ∧ doe ≠ 146096 ∨ doe / 146096 = 1 ∧ doe = 146096 := by omega
  omega

/-- The day of the year, as the code computes it. -/
lemma dayOfYear_eq :
    doe - (365 * (100 * century + 4 * cycle + place) + (100 * century + 4 * cycle + place).tdiv 4
    - (100 * century + 4 * cycle + place).tdiv 100) = doy := by
  obtain ⟨hsum, hcentury, hcycle, hplace, -⟩ := h
  have h0 : 0 ≤ 100 * century + 4 * cycle + place := by omega
  rw [Int.tdiv_eq_ediv_of_nonneg h0, Int.tdiv_eq_ediv_of_nonneg h0]
  omega

/-- Days and years before the first of January that follows the first of March of a year. -/
lemma daysBeforeYear_place (era : ℤ) :
    daysBeforeYear (100 * century + 4 * cycle + place + era * 400 + 1) + doy = era
      * 146097 + doe := by
  obtain ⟨hsum, hcentury, hcycle, hplace, -⟩ := h
  unfold daysBeforeYear
  omega

/-- A year with 366 days is a leap year. -/
lemma isLeap_place (era : ℤ) (hleap : doy = 365) :
    IsLeap (100 * century + 4 * cycle + place + era * 400 + 1) := by
  obtain ⟨hsum, hcentury, hcycle, hplace, hdoy⟩ := h
  unfold IsLeap
  omega

end Place

/-! ## Months -/

/-- A number that fits is not reduced. -/
lemma asU32_eq {x : ℤ} (h0 : 0 ≤ x) (h : x < 2 ^ 32) : (asU32 x : ℤ) = x := by
  unfold asU32
  omega

/-- The months from March to December: the days since the first of March, and the length of the
month. -/
lemma months_from_march (y : ℤ) {mp : ℕ} (h : mp < 10) :
    (daysBeforeMonth y (mp + 3) : ℤ) + 306 = yearLength y + (153 * mp + 2) / 5 ∧
      (monthLength y (mp + 3) : ℤ) = (153 * (mp + 1) + 2) / 5 - (153 * mp + 2) / 5 := by
  constructor
  · unfold yearLength
    interval_cases mp <;> simp only [daysBeforeMonth, monthLength] <;> split <;> rfl
  · interval_cases mp <;> rfl

/-- The day of a year that begins in March lies in the month that the code computes. -/
lemma exists_date (y : ℤ) {doy : ℤ} (h0 : 0 ≤ doy) (hdoy : doy ≤ 364 ∨ doy = 365 ∧ IsLeap (y + 1)) :
    let mp := (5 * doy + 2).tdiv 153
    let d := asU32 (doy - (153 * mp + 2).tdiv 5 + 1)
    let m := asU32 (if mp < 10 then mp + 3 else mp - 9)
    ∃ date : Date, date.year = (if m ≤ 2 then y + 1 else y) ∧ date.month = m ∧ date.day = d ∧
      date.number = daysBeforeYear (y + 1) - 719468 + doy := by
  have hepoch : daysBeforeYear 1970 = 719162 := by rfl
  have hsucc := daysBeforeYear_succ y
  obtain ⟨k, hk⟩ : ∃ k : ℕ, (5 * doy + 2) / 153 = k := ⟨((5 * doy + 2) / 153).toNat, by omega⟩
  have hstart : (153 * (k : ℤ) + 2) / 5 ≤ doy := by omega
  have hday : (asU32 (doy - (153 * (k : ℤ) + 2) / 5 + 1) : ℤ) = doy - (153 * (k : ℤ) + 2) / 5 + 1 :=
    asU32_eq (by omega) (by omega)
  rw [Int.tdiv_eq_ediv_of_nonneg (by omega), hk]
  dsimp only
  rw [Int.tdiv_eq_ediv_of_nonneg (by omega)]
  generalize asU32 (doy - (153 * (k : ℤ) + 2) / 5 + 1) = d at hday ⊢
  rcases lt_or_ge k 10 with hlt | hge
  · have hmonth : asU32 (if (k : ℤ) < 10 then (k : ℤ) + 3 else k - 9) = k + 3 := by
      rw [if_pos (by omega)]
      exact_mod_cast asU32_eq (x := (k : ℤ) + 3) (by omega) (by omega)
    obtain ⟨hmonths, hlength⟩ := months_from_march y hlt
    rw [hmonth, if_neg (by omega)]
    refine ⟨⟨y, k + 3, d, by omega, by omega, by omega⟩, rfl, rfl, rfl, ?_⟩
    unfold Date.number
    dsimp only
    omega
  · obtain rfl | rfl : k = 10 ∨ k = 11 := by omega
    · refine ⟨⟨y + 1, 1, d, by omega, by omega, ?_⟩, rfl, rfl, rfl, ?_⟩
      · change d ≤ 31
        omega
      · unfold Date.number
        simp only [daysBeforeMonth]
        omega
    · refine ⟨⟨y + 1, 2, d, by omega, by omega, ?_⟩, rfl, rfl, rfl, ?_⟩
      · change d ≤ if IsLeap (y + 1) then 29 else 28
        split
        · omega
        · next hleap =>
          have := hdoy.resolve_right fun h => hleap h.2
          omega
      · unfold Date.number
        simp only [daysBeforeMonth, monthLength]
        omega

/-- The era of a day is the floor of a quotient. -/
lemma era_eq (z : ℤ) : (if z ≥ 0 then z else z - 146096).tdiv 146097 = z / 146097 := by
  split
  · next h => rw [Int.tdiv_eq_ediv_of_nonneg h]
  · next h =>
    rw [show z - 146096 = -(146096 - z) from by ring, Int.neg_tdiv,
      Int.tdiv_eq_ediv_of_nonneg (by omega)]
    omega

/-- The code computes the year that begins in March, the day of this year, and from it
the month and the day. -/
lemma civil_eq (z : ℤ) : ∃ y doy : ℤ, z = daysBeforeYear (y + 1) - 719468 + doy ∧
    (0 ≤ doy ∧ (doy ≤ 364 ∨ doy = 365 ∧ IsLeap (y + 1))) ∧ civil_from_days z =
      let mp := (5 * doy + 2).tdiv 153
      let d := asU32 (doy - (153 * mp + 2).tdiv 5 + 1)
      let m := asU32 (if mp < 10 then mp + 3 else mp - 9)
      (if m ≤ 2 then y + 1 else y, m, d) := by
  have hera := era_eq (z + 719468)
  have hfirst : 0 ≤ z + 719468 - (z + 719468) / 146097 * 146097 := by omega
  have hlast : z + 719468 - (z + 719468) / 146097 * 146097 ≤ 146096 := by omega
  obtain ⟨century, cycle, place, doy, hplace⟩ := exists_place hfirst hlast
  have hyear := yearOfEra_eq hplace
  have hday := dayOfYear_eq hplace
  have hbefore := daysBeforeYear_place hplace ((z + 719468) / 146097)
  refine ⟨100 * century + 4 * cycle + place + (z + 719468) / 146097 * 400, doy,
    by omega, ⟨hplace.doy_range.1, ?_⟩, ?_⟩
  · exact hplace.doy_range.2.imp_right fun h => ⟨h.1, isLeap_place hplace _ h.1⟩
  · unfold civil_from_days
    dsimp only
    rw [hera, hyear, hday]

/-! ## Dates -/

/-- The code computes a date of the calendar, the one with this number of days. -/
lemma civil_number (z : ℤ) : ∃ date : Date, civil_from_days z = (date.year, date.month, date.day) ∧
    date.number = z := by
  obtain ⟨y, doy, hz, ⟨h0, hdoy⟩, hcivil⟩ := civil_eq z
  obtain ⟨date, hyear, hmonth, hday, hnumber⟩ := exists_date y h0 hdoy
  refine ⟨date, ?_, hnumber.trans hz.symm⟩
  rw [hcivil, hyear, hmonth, hday]

/-- The date that the code computes. -/
def date (z : ℤ) : Date where
  year := (civil_from_days z).1
  month := (civil_from_days z).2.1
  day := (civil_from_days z).2.2
  month_range := by
    obtain ⟨d, hcivil, -⟩ := civil_number z
    rw [hcivil]
    exact d.month_range
  day_range := by
    obtain ⟨d, hcivil, -⟩ := civil_number z
    rw [hcivil]
    exact d.day_range

/-- The date of a day has its number. -/
theorem date_number (z : ℤ) : (date z).number = z := by
  obtain ⟨d, hcivil, hnumber⟩ := civil_number z
  have heq : date z = d := by ext <;> simp only [date, hcivil]
  rw [heq, hnumber]

/-- The text of a timestamp in milliseconds, by its days and its milliseconds of the day. -/
lemma format_eq (epoch_millis : UInt64) : format_iso8601 epoch_millis =
    let d := date (epoch_millis.toNat / 86400000 : ℕ)
    let secs := epoch_millis.toNat / 1000 % 86400
    isoText d.year d.month d.day (secs / 3600) (secs % 3600 / 60) (secs % 60)
      (epoch_millis.toNat % 1000) := by
  have hdays : (epoch_millis / 1000 / 86400).toNat = epoch_millis.toNat / 86400000 := by
    rw [UInt64.toNat_div, UInt64.toNat_div, Nat.div_div_eq_div_mul]
    rfl
  simp only [format_iso8601, hdays, date]
  simp

/-- The text of every timestamp shows the date and the time of day of the calendar. The dates are
numbered by the days since 1970 without gaps, and in their order. -/
theorem format_correct :
    (∀ epoch_millis : UInt64, ∃ (d : Date) (hour minute second millis : ℕ),
      format_iso8601 epoch_millis = isoText d.year d.month d.day hour minute second millis ∧
        d.number = (epoch_millis.toNat / 86400000 : ℕ) ∧
        (hour < 24 ∧ minute < 60 ∧ second < 60 ∧ millis < 1000) ∧
        ((hour * 60 + minute) * 60 + second) * 1000 + millis = epoch_millis.toNat % 86400000) ∧
      (∀ z, civil_from_days z = ((date z).year, (date z).month, (date z).day) ∧
        (date z).number = z) ∧
      (∀ d : Date, date d.number = d) ∧ ∀ z z', z < z' → date z < date z' := by
  refine ⟨fun epoch_millis => ?_, fun z => ⟨rfl, date_number z⟩, fun d => ?_, fun z z' h => ?_⟩
  · refine ⟨_, _, _, _, _, format_eq epoch_millis, date_number _, ⟨?_, ?_, ?_, ?_⟩, ?_⟩ <;> omega
  · exact Date.number_injective (date_number _)
  · rw [← Date.number_lt_iff, date_number, date_number]
    exact h

/-- The epoch, and the last millisecond of a leap day. -/
example : format_iso8601 0 = "1970-01-01T00:00:00.000Z".toList ∧
    format_iso8601 951868799999 = "2000-02-29T23:59:59.999Z".toList := by decide

end RespBench.Metrics.Rust
