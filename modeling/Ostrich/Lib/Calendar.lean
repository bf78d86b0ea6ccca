import Ostrich.Lib.Time

/-!
# Weekdays and weeks

Days are numbered from 1 January 1970, a Thursday.

* `weekday`: the day of the week; `exists_weekday` finds it in any seven days in a row;
* `yearStart`: the first day of a year, and `yearStart_civil`: a day lies in its year;
* `isoWeek`: the week of ISO 8601 with its year, the year of the Thursday of the week;
* `isoWeek_eq_iff`: two days have one ISO week exactly when they lie between the same two Mondays.
-/

namespace Ostrich

/-- The days of the week. -/
inductive Weekday where
  | Mon
  | Tue
  | Wed
  | Thu
  | Fri
  | Sat
  | Sun
  deriving DecidableEq, Repr

namespace Weekday

/-- The number of days from Monday. -/
def fromMonday : Weekday → ℤ
  | .Mon => 0
  | .Tue => 1
  | .Wed => 2
  | .Thu => 3
  | .Fri => 4
  | .Sat => 5
  | .Sun => 6

theorem fromMonday_bounds (w : Weekday) : 0 ≤ w.fromMonday ∧ w.fromMonday < 7 := by
  cases w <;> decide

/-- The day of the week that comes this number of days after Monday. -/
def ofFromMonday (n : ℤ) : Weekday :=
  if n = 0 then .Mon else if n = 1 then .Tue else if n = 2 then .Wed else if n = 3 then .Thu
  else if n = 4 then .Fri else if n = 5 then .Sat else .Sun

theorem ofFromMonday_fromMonday (w : Weekday) : ofFromMonday w.fromMonday = w := by
  cases w <;> decide

end Weekday

namespace DateTime

/-- The day of the week of a day. -/
def weekday (days : ℤ) : Weekday := .ofFromMonday ((days + 3) % 7)

/-- **Seven days in a row have every day of the week.** -/
theorem exists_weekday (days : ℤ) (w : Weekday) :
    ∃ k : ℤ, 0 ≤ k ∧ k < 7 ∧ weekday (days + k) = w := by
  have hbounds := w.fromMonday_bounds
  refine ⟨(w.fromMonday - (days + 3)) % 7, by omega, by omega, ?_⟩
  have hmod : (days + (w.fromMonday - (days + 3)) % 7 + 3) % 7 = w.fromMonday := by omega
  unfold weekday
  rw [hmod, Weekday.ofFromMonday_fromMonday]

/-! ### Years -/

/-- The first day of a year. -/
def yearStart (year : ℤ) : ℤ :=
  365 * (year - 1) + (year - 1) / 4 - (year - 1) / 100 + (year - 1) / 400 - 719162

/-- A day lies in its year, which has 366 days at most. -/
theorem yearStart_civil (days : ℤ) :
    yearStart (civil days).1 ≤ days ∧ days < yearStart (civil days).1 + 366 := by
  have hof := cycleDay_of days
  unfold civil yearStart
  generalize cycleDay days = c at hof
  obtain ⟨hsum, hcentury, hfour, hy, hd⟩ := hof
  dsimp only
  -- the years that end before the March of this cycle year, in whole groups of 4, 100 and 400
  set e := c.era * 400 + c.century * 100 + c.four * 4 + c.year with he
  have h4 : e / 4 = c.era * 100 + c.century * 25 + c.four := by omega
  have h100 : e / 100 = c.era * 4 + c.century := by omega
  have h400 : e / 400 = c.era := by omega
  have hdays : days = 365 * e + e / 4 - e / 100 + e / 400 - 719468 + c.day := by omega
  clear_value e
  clear hsum he h4 h100 h400
  by_cases hlate : (5 * c.day + 2) / 153 < 10
  · rw [if_pos hlate, if_neg (by omega)]
    omega
  · rw [if_neg hlate, if_pos (by omega)]
    omega

/-! ### Weeks -/

/-- The number of a week, which starts on a Monday. -/
def weekNumber (days : ℤ) : ℤ := (days + 3) / 7

/-- Year and week of ISO 8601: the week has the year of its Thursday, and its number is that of the
Thursday in the year. -/
def isoWeek (days : ℤ) : ℤ × ℤ :=
  let thursday := weekNumber days * 7
  let year := (civil thursday).1
  (year, (thursday - yearStart year) / 7 + 1)

theorem isoWeek_bounds (days : ℤ) : 1 ≤ (isoWeek days).2 ∧ (isoWeek days).2 ≤ 53 := by
  have hyear := yearStart_civil (weekNumber days * 7)
  unfold isoWeek
  dsimp only
  omega

/-- **The ISO week of a day is the week in which it lies.** -/
theorem isoWeek_eq_iff {a b : ℤ} : isoWeek a = isoWeek b ↔ weekNumber a = weekNumber b := by
  constructor
  · intro h
    unfold isoWeek at h
    dsimp only at h
    rw [Prod.mk.injEq] at h
    obtain ⟨hyear, hweek⟩ := h
    rw [hyear] at hweek
    omega
  · intro h
    unfold isoWeek
    rw [h]

/-- The third of January 2021 lies in the last week of 2020. -/
example : isoWeek 18630 = (2020, 53) := by decide

end DateTime

end Ostrich
