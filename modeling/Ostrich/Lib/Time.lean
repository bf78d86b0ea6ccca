import Ostrich.Lib.Text
import Mathlib.Data.Int.Notation
import Mathlib.Data.Nat.Log
import Mathlib.Tactic.Common

/-!
# Points in time

`DateTime` is a UTC time as the time library keeps it: seconds since 1970 and nanoseconds, which
reach from 10⁹ to 2·10⁹ in a leap second, the second after a `:59`.  A database keeps microseconds
only (`toMicros`, `ofMicros`).

`toRfc3339` is the text with as many fraction digits as the time needs (none, 3, 6 or 9).

Main results:
* `DateTime.toRfc3339_injective`: the text determines the time;
* `DateTime.ofMicros_toMicros`: a time of whole microseconds that is no leap second survives the
  database.
-/

namespace Ostrich

open Text

/-- A UTC time. -/
structure DateTime where
  secs : ℤ
  nanos : ℕ
  nanos_lt : nanos < 2000000000
  leap : 1000000000 ≤ nanos → secs % 60 = 59
  deriving DecidableEq, Repr

namespace DateTime

/-- Earlier or the same: seconds first, then nanoseconds. -/
def le (a b : DateTime) : Prop := a.secs < b.secs ∨ a.secs = b.secs ∧ a.nanos ≤ b.nanos

instance : LE DateTime := ⟨le⟩

/-- Strictly earlier. -/
def lt (a b : DateTime) : Prop := a.secs < b.secs ∨ a.secs = b.secs ∧ a.nanos < b.nanos

instance : LT DateTime := ⟨lt⟩

theorem le_def {a b : DateTime} :
    a ≤ b ↔ a.secs < b.secs ∨ a.secs = b.secs ∧ a.nanos ≤ b.nanos := Iff.rfl

theorem lt_def {a b : DateTime} :
    a < b ↔ a.secs < b.secs ∨ a.secs = b.secs ∧ a.nanos < b.nanos := Iff.rfl

instance (a b : DateTime) : Decidable (a ≤ b) := inferInstanceAs (Decidable (_ ∨ _))

instance (a b : DateTime) : Decidable (a < b) := inferInstanceAs (Decidable (_ ∨ _))

theorem not_le {a b : DateTime} : ¬a ≤ b ↔ b < a := by
  rw [le_def, lt_def]
  omega

theorem lt_of_le_of_lt {a b c : DateTime} (hab : a ≤ b) (hbc : b < c) : a < c := by
  rw [le_def] at hab
  rw [lt_def] at hbc ⊢
  omega

theorem le_trans {a b c : DateTime} (hab : a ≤ b) (hbc : b ≤ c) : a ≤ c := by
  rw [le_def] at hab hbc ⊢
  omega

theorem lt_trans {a b c : DateTime} (hab : a < b) (hbc : b < c) : a < c := by
  rw [lt_def] at hab hbc ⊢
  omega

theorem lt_irrefl (a : DateTime) : ¬a < a := by
  rw [lt_def]
  omega

/-! ### Microseconds -/

/-- Drop what is below a microsecond. -/
def truncMicros (t : DateTime) : DateTime where
  secs := t.secs
  nanos := t.nanos - t.nanos % 1000
  nanos_lt := by
    have h := t.nanos_lt
    omega
  leap h := t.leap (by omega)

/-- The microseconds since 1970; a leap second runs into the next one. -/
def toMicros (t : DateTime) : ℤ := t.secs * 1000000 + (t.nanos / 1000 : ℕ)

/-- The time of a number of microseconds since 1970. -/
def ofMicros (micros : ℤ) : DateTime where
  secs := micros / 1000000
  nanos := (micros % 1000000).toNat * 1000
  nanos_lt := by
    have h := Int.emod_lt_of_pos micros (show (0 : ℤ) < 1000000 by decide)
    omega
  leap h := by
    have hlt := Int.emod_lt_of_pos micros (show (0 : ℤ) < 1000000 by decide)
    omega

/-- No leap second and whole microseconds: what a database can keep. -/
def Storable (t : DateTime) : Prop := t.nanos < 1000000000 ∧ t.nanos % 1000 = 0

instance (t : DateTime) : Decidable t.Storable := inferInstanceAs (Decidable (_ ∧ _))

theorem ext_iff' {a b : DateTime} : a = b ↔ a.secs = b.secs ∧ a.nanos = b.nanos := by
  cases a
  cases b
  simp

/-- A storable time is read back as it was. -/
theorem ofMicros_toMicros {t : DateTime} (h : t.Storable) : ofMicros t.toMicros = t := by
  obtain ⟨hlt, hmod⟩ := h
  rw [ext_iff', ofMicros, toMicros]
  constructor
  · show (t.secs * 1000000 + (t.nanos / 1000 : ℕ)) / 1000000 = t.secs
    omega
  · show ((t.secs * 1000000 + (t.nanos / 1000 : ℕ)) % 1000000).toNat * 1000 = t.nanos
    omega

theorem storable_ofMicros (micros : ℤ) : (ofMicros micros).Storable := by
  have hlt := Int.emod_lt_of_pos micros (show (0 : ℤ) < 1000000 by decide)
  have hnonneg := Int.emod_nonneg micros (show (1000000 : ℤ) ≠ 0 by decide)
  constructor
  · show (micros % 1000000).toNat * 1000 < 1000000000
    omega
  · show (micros % 1000000).toNat * 1000 % 1000 = 0
    omega

theorem storable_truncMicros {t : DateTime} (h : t.nanos < 1000000000) :
    t.truncMicros.Storable := by
  constructor
  · show t.nanos - t.nanos % 1000 < 1000000000
    omega
  · show (t.nanos - t.nanos % 1000) % 1000 = 0
    omega

/-- The first microsecond that a `TIMESTAMPTZ` can hold: 24 November 4714 BC. -/
def minTimestamp : ℤ := -210866803200000000

/-- A time in a `TIMESTAMPTZ` column. -/
def timestamptz (t : DateTime) : Option DateTime :=
  if t.toMicros < minTimestamp then none else some (.ofMicros t.toMicros)

/-- The last time that there is: the end of the year 262142. -/
def maxSecs : ℤ := 8210266876799

/-- `t + Duration::microseconds(1)` for a `t` that a database gave; `none` past the last time,
where the addition panics. -/
def addMicro (t : DateTime) : Option DateTime :=
  let next := ofMicros (t.toMicros + 1)
  if next.secs ≤ maxSecs then some next else none

/-- `t + Duration::seconds(n)`; a leap second does not last into another second. -/
def addSeconds (t : DateTime) (n : ℕ) : Option DateTime :=
  if n = 0 then some t
  else if t.secs + n ≤ maxSecs then
    some ⟨t.secs + n, t.nanos % 1000000000, by omega, by omega⟩
  else none

/-- The first second that there is: the beginning of the year -262143. -/
def minSecs : ℤ := -8334601228800

/-- `t + Duration::seconds(secs)`; `none` where the addition panics. -/
def addDuration (t : DateTime) (secs : ℤ) : Option DateTime :=
  if 0 ≤ secs then t.addSeconds secs.toNat
  -- a leap second counts as the second after
  else if t.secs + secs + (t.nanos / 1000000000 : ℕ) < minSecs then none
  else some ⟨t.secs + secs + (t.nanos / 1000000000 : ℕ), t.nanos % 1000000000, by omega, by omega⟩

/-- The nanoseconds of `t - s`; a leap second that lies between the two times of day counts. -/
def nanosSince (t s : DateTime) : ℤ :=
  let leap : ℤ :=
    if s.secs % 86400 < t.secs % 86400 then (s.nanos / 1000000000 : ℕ)
    else if t.secs % 86400 < s.secs % 86400 then -(t.nanos / 1000000000 : ℕ)
    else 0
  (t.secs - s.secs + leap) * 1000000000 + t.nanos - s.nanos

/-- `(t - s).num_seconds()`: towards zero. -/
def secondsSince (t s : DateTime) : ℤ := (t.nanosSince s).tdiv 1000000000

theorem storable_of_addMicro {t next : DateTime} (h : t.addMicro = some next) : next.Storable := by
  unfold addMicro at h
  dsimp only at h
  split_ifs at h
  obtain rfl := Option.some.inj h
  exact storable_ofMicros _

theorem lt_of_addMicro {t next : DateTime} (h : t.addMicro = some next) : t < next := by
  have hlt := t.nanos_lt
  unfold addMicro at h
  dsimp only at h
  split_ifs at h
  obtain rfl := Option.some.inj h
  rw [lt_def, ofMicros, toMicros]
  show t.secs < (t.secs * 1000000 + (t.nanos / 1000 : ℕ) + 1) / 1000000 ∨
    t.secs = (t.secs * 1000000 + (t.nanos / 1000 : ℕ) + 1) / 1000000 ∧
      t.nanos < ((t.secs * 1000000 + (t.nanos / 1000 : ℕ) + 1) % 1000000).toNat * 1000
  omega

/-! ### Nanoseconds -/

/-- The time of a number of nanoseconds since 1970, as the system clock counts them: never in a leap
second. -/
def ofNanos (n : ℤ) : DateTime where
  secs := n / 1000000000
  nanos := (n % 1000000000).toNat
  nanos_lt := by
    have h := Int.emod_lt_of_pos n (show (0 : ℤ) < 1000000000 by decide)
    omega
  leap h := by
    have hlt := Int.emod_lt_of_pos n (show (0 : ℤ) < 1000000000 by decide)
    omega

theorem ofNanos_lt_ofNanos {m n : ℤ} : ofNanos m < ofNanos n ↔ m < n := by
  rw [lt_def]
  show m / 1000000000 < n / 1000000000 ∨
    m / 1000000000 = n / 1000000000 ∧ (m % 1000000000).toNat < (n % 1000000000).toNat ↔ m < n
  omega

theorem ofNanos_le_ofNanos {m n : ℤ} (h : m ≤ n) : ofNanos m ≤ ofNanos n := by
  by_contra hle
  have hlt := ofNanos_lt_ofNanos.mp (not_le.mp hle)
  omega

/-- Durations are exact between such times. -/
theorem addDuration_ofNanos {n secs : ℤ} {t : DateTime}
    (h : (ofNanos n).addDuration secs = some t) :
    t = ofNanos (n + secs * 1000000000) := by
  have hnanos : (ofNanos n).nanos = (n % 1000000000).toNat := rfl
  have hsecs : (ofNanos n).secs = n / 1000000000 := rfl
  unfold addDuration addSeconds at h
  split_ifs at h with hsign hzero hmax hmin
  · obtain rfl := Option.some.inj h
    rw [show n + secs * 1000000000 = n by omega]
  · obtain rfl := Option.some.inj h
    rw [ext_iff']
    constructor
    · show (ofNanos n).secs + (secs.toNat : ℤ) = (n + secs * 1000000000) / 1000000000
      omega
    · show (ofNanos n).nanos % 1000000000 = ((n + secs * 1000000000) % 1000000000).toNat
      omega
  · obtain rfl := Option.some.inj h
    rw [ext_iff']
    constructor
    · show (ofNanos n).secs + secs + ((ofNanos n).nanos / 1000000000 : ℕ)
        = (n + secs * 1000000000) / 1000000000
      omega
    · show (ofNanos n).nanos % 1000000000 = ((n + secs * 1000000000) % 1000000000).toNat
      omega

/-- The nanoseconds since 1970; a leap second runs into the next one. -/
def toNanos (t : DateTime) : ℤ := t.secs * 1000000000 + t.nanos

@[simp] theorem toNanos_ofNanos (n : ℤ) : (ofNanos n).toNanos = n := by
  show n / 1000000000 * 1000000000 + ((n % 1000000000).toNat : ℤ) = n
  omega

/-- What is left of such a time in whole microseconds. -/
theorem ofMicros_toMicros_ofNanos (n : ℤ) :
    ofMicros (ofNanos n).toMicros = ofNanos (n / 1000 * 1000) := by
  have hmicros : (ofNanos n).toMicros = n / 1000 := by
    show n / 1000000000 * 1000000 + ((n % 1000000000).toNat / 1000 : ℕ) = n / 1000
    omega
  rw [hmicros, ext_iff']
  constructor
  · show n / 1000 / 1000000 = n / 1000 * 1000 / 1000000000
    omega
  · show (n / 1000 % 1000000).toNat * 1000 = (n / 1000 * 1000 % 1000000000).toNat
    omega

/-- The seconds between such times, towards zero. -/
theorem secondsSince_ofNanos (m n : ℤ) :
    (ofNanos m).secondsSince (ofNanos n) = (m - n).tdiv 1000000000 := by
  unfold secondsSince nanosSince ofNanos
  congr 1
  dsimp only
  split_ifs <;> omega

/-! ### The calendar -/

/-- A day in the cycle of 400 years that starts on a first of March: the cycle, and the century,
the four years, the year and the day in it. -/
structure CycleDay where
  era : ℤ
  century : ℤ
  four : ℤ
  year : ℤ
  day : ℤ

/-- The cycle day of a day since 1970. -/
def cycleDay (days : ℤ) : CycleDay :=
  let dayOfEra := (days + 719468) % 146097
  let century := min (dayOfEra / 36524) 3
  let dayOfCentury := dayOfEra - century * 36524
  let four := dayOfCentury / 1461
  let dayOfFour := dayOfCentury - four * 1461
  let year := min (dayOfFour / 365) 3
  ⟨(days + 719468) / 146097, century, four, year, dayOfFour - year * 365⟩

/-- The parts of a cycle day are in range and make up the day. -/
structure CycleDay.Of (c : CycleDay) (days : ℤ) : Prop where
  sum : days + 719468
    = c.era * 146097 + c.century * 36524 + c.four * 1461 + c.year * 365 + c.day
  century : 0 ≤ c.century ∧ c.century ≤ 3
  four : 0 ≤ c.four ∧ c.four ≤ 24
  year : 0 ≤ c.year ∧ c.year ≤ 3
  day : 0 ≤ c.day ∧ c.day ≤ 365

theorem cycleDay_of (days : ℤ) : (cycleDay days).Of days := by
  unfold cycleDay
  constructor
  · dsimp only
    omega
  · dsimp only
    omega
  · dsimp only
    omega
  · dsimp only
    omega
  · dsimp only
    omega

/-- Year, month and day of a day since 1970 in the Gregorian calendar. -/
def civil (days : ℤ) : ℤ × ℤ × ℤ :=
  let c := cycleDay days
  let fromMarch := (5 * c.day + 2) / 153
  let month := if fromMarch < 10 then fromMarch + 3 else fromMarch - 9
  (c.era * 400 + c.century * 100 + c.four * 4 + c.year + (if month ≤ 2 then 1 else 0), month,
    c.day - (153 * fromMarch + 2) / 5 + 1)

/-- **A day is determined by its date.** -/
theorem civil_injective : Function.Injective civil := by
  intro a b h
  have ha := cycleDay_of a
  have hb := cycleDay_of b
  revert h ha hb
  unfold civil
  generalize cycleDay a = c
  generalize cycleDay b = d
  intro h ha hb
  obtain ⟨hyear, hmonth, hday⟩ : _ ∧ _ ∧ _ := by simpa only [Prod.mk.injEq] using h
  obtain ⟨hsum, hcentury, hfour, hy, hd⟩ := ha
  obtain ⟨hsum', hcentury', hfour', hy', hd'⟩ := hb
  have hfrom : (5 * c.day + 2) / 153 = (5 * d.day + 2) / 153 := by
    have h₁ : 0 ≤ (5 * c.day + 2) / 153 ∧ (5 * c.day + 2) / 153 ≤ 11 := by omega
    have h₂ : 0 ≤ (5 * d.day + 2) / 153 ∧ (5 * d.day + 2) / 153 ≤ 11 := by omega
    clear hyear hday
    split_ifs at hmonth <;> omega
  have hdays : c.day = d.day := by
    rw [hfrom] at hday
    omega
  have hyears : c.era * 400 + c.century * 100 + c.four * 4 + c.year
      = d.era * 400 + d.century * 100 + d.four * 4 + d.year := by
    rw [hmonth] at hyear
    omega
  clear hyear hmonth hday hfrom
  have hera : c.era = d.era := by omega
  have hcent : c.century = d.century := by omega
  have hf : c.four = d.four := by omega
  omega

theorem civil_bounds (days : ℤ) : 1 ≤ (civil days).2.1 ∧ (civil days).2.1 ≤ 12 ∧
    1 ≤ (civil days).2.2 ∧ (civil days).2.2 ≤ 31 := by
  obtain ⟨-, -, -, -, hd⟩ := cycleDay_of days
  simp only [civil]
  split_ifs <;> omega

example : civil 17166 = (2016, 12, 31) := by decide

/-! ### Text -/

/-- A year: four digits, with a sign and more digits outside 0 to 9999. -/
def yearText (year : ℤ) : List Char :=
  if 0 ≤ year ∧ year ≤ 9999 then decFixed 4 year.toNat
  else (if year < 0 then '-' else '+')
    :: decFixed (max 4 (Nat.log 10 year.natAbs + 1)) year.natAbs

/-- `YYYY-MM-DD`. -/
def dateText (days : ℤ) : List Char :=
  let (year, month, day) := civil days
  yearText year ++ '-' :: decFixed 2 month.toNat ++ '-' :: decFixed 2 day.toNat

/-- `HH:MM:SS`; the second of a leap second is 60. -/
def timeText (t : DateTime) : List Char :=
  let second := (t.secs % 86400).toNat
  decFixed 2 (second / 3600) ++ ':' :: decFixed 2 (second / 60 % 60)
    ++ ':' :: decFixed 2 (second % 60 + t.nanos / 1000000000)

/-- The fraction, with as many of its nine digits as it needs, in groups of three. -/
def fractionText (nanos : ℕ) : List Char :=
  if nanos = 0 then []
  else if nanos % 1000000 = 0 then '.' :: decFixed 3 (nanos / 1000000)
  else if nanos % 1000 = 0 then '.' :: decFixed 6 (nanos / 1000)
  else '.' :: decFixed 9 nanos

/-- `to_rfc3339`. -/
def toRfc3339 (t : DateTime) : String :=
  String.ofList (dateText (t.secs / 86400) ++ 'T' :: (timeText t
    ++ (fractionText (t.nanos % 1000000000) ++ "+00:00".toList)))

/-- `to_rfc3339_opts(SecondsFormat::Micros, true)`. -/
def toRfc3339Micros (t : DateTime) : String :=
  String.ofList (dateText (t.secs / 86400) ++ 'T' :: (timeText t
    ++ '.' :: decFixed 6 (t.nanos % 1000000000 / 1000) ++ ['Z']))

theorem mem_yearText {year : ℤ} {c : Char} (h : c ∈ yearText year) : c.toNat ≤ 57 := by
  unfold yearText at h
  split_ifs at h with h₁ h₂
  · exact (mem_decFixed _ _ c h).2
  · rcases List.mem_cons.mp h with rfl | h
    · decide
    · exact (mem_decFixed _ _ c h).2
  · rcases List.mem_cons.mp h with rfl | h
    · decide
    · exact (mem_decFixed _ _ c h).2

/-- A signed year is no unsigned one. -/
theorem decFixed_ne_cons {k n : ℕ} {c : Char} {l : List Char} (hc : c.toNat < 48) :
    decFixed k n ≠ c :: l := by
  intro h
  have hmem : c ∈ decFixed k n := by
    rw [h]
    exact List.mem_cons_self ..
  have := (mem_decFixed k n c hmem).1
  omega

theorem yearText_injective {a b : ℤ} (h : yearText a = yearText b) : a = b := by
  have hdigits (n : ℕ) : n < 10 ^ max 4 (Nat.log 10 n + 1) :=
    (Nat.lt_pow_succ_log_self (by decide) n).trans_le
      (Nat.pow_le_pow_right (by decide) (le_max_right ..))
  have hnat {m n : ℕ} (hmn : decFixed (max 4 (Nat.log 10 m + 1)) m
      = decFixed (max 4 (Nat.log 10 n + 1)) n) : m = n := by
    have hlen := congrArg List.length hmn
    rw [length_decFixed, length_decFixed] at hlen
    rw [hlen] at hmn
    exact decFixed_injective _ (hlen ▸ hdigits m) (hdigits n) hmn
  unfold yearText at h
  by_cases ha : 0 ≤ a ∧ a ≤ 9999
  · by_cases hb : 0 ≤ b ∧ b ≤ 9999
    · rw [if_pos ha, if_pos hb] at h
      have := decFixed_injective 4 (by omega) (by omega) h
      omega
    · rw [if_pos ha, if_neg hb] at h
      refine absurd h (decFixed_ne_cons ?_)
      split_ifs <;> decide
  · by_cases hb : 0 ≤ b ∧ b ≤ 9999
    · rw [if_neg ha, if_pos hb] at h
      refine absurd h.symm (decFixed_ne_cons ?_)
      split_ifs <;> decide
    · rw [if_neg ha, if_neg hb] at h
      obtain ⟨hsign, hrest⟩ := List.cons.inj h
      have habs := hnat hrest
      split_ifs at hsign with h₁ h₂ h₂
      · omega
      · exact absurd hsign (by decide)
      · exact absurd hsign (by decide)
      · omega

theorem dateText_injective {a b : ℤ} (h : dateText a = dateText b) : a = b := by
  refine civil_injective ?_
  have ha := civil_bounds a
  have hb := civil_bounds b
  unfold dateText at h
  revert h ha hb
  generalize civil a = x
  generalize civil b = y
  obtain ⟨year, month, day⟩ := x
  obtain ⟨year', month', day'⟩ := y
  intro h ha hb
  dsimp only at h ha hb
  -- the date ends with six characters for the month and the day
  obtain ⟨hyear, hrest⟩ := List.append_inj' (by simpa only [List.append_assoc] using h) (by simp)
  obtain ⟨hmonth, hday⟩ := List.append_inj (List.cons.inj hrest).2 (by simp)
  have h₁ := yearText_injective hyear
  have h₂ := decFixed_injective 2 (by omega) (by omega) hmonth
  have h₃ := decFixed_injective 2 (by omega) (by omega) (List.cons.inj hday).2
  rw [h₁, show month = month' by omega, show day = day' by omega]

theorem mem_dateText {days : ℤ} {c : Char} (h : c ∈ dateText days) : c.toNat ≤ 57 := by
  unfold dateText at h
  dsimp only at h
  rw [List.append_assoc] at h
  rcases List.mem_append.mp h with h | h
  · exact mem_yearText h
  · rcases List.mem_cons.mp h with rfl | h
    · decide
    · rcases List.mem_append.mp h with h | h
      · exact (mem_decFixed _ _ c h).2
      · rcases List.mem_cons.mp h with rfl | h
        · decide
        · exact (mem_decFixed _ _ c h).2

theorem fractionText_injective {a b : ℕ} (ha : a < 1000000000) (hb : b < 1000000000)
    (h : fractionText a = fractionText b) : a = b := by
  have hlen := congrArg List.length h
  unfold fractionText at h hlen
  split_ifs at h hlen
  all_goals first
    | omega
    | (simp only [List.length_cons, length_decFixed] at hlen; omega)
    | skip
  · have := decFixed_injective 3 (by omega) (by omega) (List.cons.inj h).2
    omega
  · have := decFixed_injective 6 (by omega) (by omega) (List.cons.inj h).2
    omega
  · exact decFixed_injective 9 (by omega) (by omega) (List.cons.inj h).2

theorem not_mem_dateText (days : ℤ) : 'T' ∉ dateText days := fun hmem => by
  have := mem_dateText hmem
  revert this
  decide

/-- The time of day determines the second, a leap second included. -/
theorem secs_of_timeText {a b : DateTime} (hdays : a.secs / 86400 = b.secs / 86400)
    (htime : timeText a = timeText b) :
    a.secs = b.secs ∧ a.nanos / 1000000000 = b.nanos / 1000000000 := by
  have ha := a.nanos_lt
  have hb := b.nanos_lt
  have hleap := a.leap
  have hleap' := b.leap
  unfold timeText at htime
  dsimp only at htime
  simp only [List.append_assoc, List.cons_append] at htime
  obtain ⟨hhour, htime⟩ := List.append_inj htime (by simp)
  obtain ⟨hminute, htime⟩ := List.append_inj (List.cons.inj htime).2 (by simp)
  have h₁ := decFixed_injective 2 (by omega) (by omega) hhour
  have h₂ := decFixed_injective 2 (by omega) (by omega) hminute
  have h₃ := decFixed_injective 2 (by omega) (by omega) (List.cons.inj htime).2
  constructor
  · omega
  · omega

/-- **The text determines the time.** -/
theorem toRfc3339_injective {a b : DateTime} (h : a.toRfc3339 = b.toRfc3339) : a = b := by
  have hlist := String.ofList_injective h
  obtain ⟨hdate, hrest⟩ := eq_of_append_cons (not_mem_dateText _) (not_mem_dateText _) hlist
  have hdays := dateText_injective hdate
  obtain ⟨htime, hrest⟩ := List.append_inj hrest (by simp [timeText])
  have hfraction := fractionText_injective (Nat.mod_lt _ (by decide)) (Nat.mod_lt _ (by decide))
    (List.append_cancel_right hrest)
  obtain ⟨hsecs, hnanos⟩ := secs_of_timeText hdays htime
  rw [ext_iff']
  constructor
  · exact hsecs
  · omega

/-- The text with microseconds determines the time up to what is below a microsecond. -/
theorem truncMicros_eq_of_toRfc3339Micros {a b : DateTime}
    (h : a.toRfc3339Micros = b.toRfc3339Micros) : a.truncMicros = b.truncMicros := by
  have hlist := String.ofList_injective h
  obtain ⟨hdate, hrest⟩ := eq_of_append_cons (not_mem_dateText _) (not_mem_dateText _) hlist
  have hdays := dateText_injective hdate
  simp only [List.append_assoc, List.cons_append] at hrest
  obtain ⟨htime, hrest⟩ := List.append_inj hrest (by simp [timeText])
  obtain ⟨hsecs, hnanos⟩ := secs_of_timeText hdays htime
  have hmicros := decFixed_injective 6 (by omega) (by omega)
    (List.append_cancel_right (List.cons.inj hrest).2)
  rw [ext_iff']
  constructor
  · exact hsecs
  · show a.nanos - a.nanos % 1000 = b.nanos - b.nanos % 1000
    omega

example : (DateTime.mk 1483228799 1500000000 (by decide) (by decide)).toRfc3339
    = "2016-12-31T23:59:60.500+00:00" := by decide +kernel

end DateTime

end Ostrich
