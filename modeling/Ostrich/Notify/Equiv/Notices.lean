import Ostrich.Notify.Scheduler

/-!
# Expiry notices are neither skipped nor repeated

* `exists_due`: a schedule of seven days or more is due at some time before the certificate
  expires, at the end of the first day that is a send-day;
* `periodKey_eq_iff`: the keys of two times are those of one day, ISO week or month;
* `published_pairwise`: no two published notices of a certificate are in one period;
* `notices`: the three together.
-/

namespace Ostrich.Notify

open Text DateTime

/-! ### Periods -/

/-- Two times lie in one period of a frequency. -/
def SamePeriod (frequency : String) (a b : DateTime) : Prop :=
  if toAsciiLowercase frequency = "weekly" then
    weekNumber (dateNaive a) = weekNumber (dateNaive b)
  else if toAsciiLowercase frequency = "monthly" then
    (civil (dateNaive a)).1 = (civil (dateNaive b)).1 ∧
      (civil (dateNaive a)).2.1 = (civil (dateNaive b)).2.1
  else dateNaive a = dateNaive b

/-- The digits of a number tell it. -/
theorem toString_injective {m n : ℕ} (h : (toString m).toList = (toString n).toList) : m = n := by
  have hm := decimal_toString m
  have hn := decimal_toString n
  rw [String.toList_inj.mp h, hn] at hm
  exact (Option.some.inj hm).symm

/-- No number starts with a sign. -/
theorem toString_ne_cons {n : ℕ} {l : List Char} : (toString n).toList ≠ '-' :: l := by
  intro h
  have hdigit := isDigit_of_decimal (decimal_toString n) '-' (by rw [h]; exact List.mem_cons_self)
  exact absurd hdigit (by decide)

theorem intText_injective {a b : ℤ} (h : intText a = intText b) : a = b := by
  unfold intText at h
  split_ifs at h with ha hb hb
  · have hnat := toString_injective (List.cons.inj h).2
    omega
  · exact absurd h.symm toString_ne_cons
  · exact absurd h toString_ne_cons
  · have hnat := toString_injective h
    omega

/-- A key of a year and a number of two digits. -/
theorem yearKey_injective {a b m n : ℤ} {sep : List Char} (hm : 0 ≤ m ∧ m < 100)
    (hn : 0 ≤ n ∧ n < 100)
    (h : intText a ++ (sep ++ decFixed 2 m.toNat) = intText b ++ (sep ++ decFixed 2 n.toNat)) :
    a = b ∧ m = n := by
  obtain ⟨hyear, hrest⟩ := List.append_inj' h (by simp)
  have hnumber := decFixed_injective 2 (by omega) (by omega) (List.append_cancel_left hrest)
  exact ⟨intText_injective hyear, by omega⟩

theorem weekKey_eq_iff {a b : ℤ} : weekKey a = weekKey b ↔ weekNumber a = weekNumber b := by
  rw [← isoWeek_eq_iff]
  constructor
  · intro h
    have ha := isoWeek_bounds a
    have hb := isoWeek_bounds b
    obtain ⟨hyear, hweek⟩ := yearKey_injective (by omega) (by omega) h
    exact Prod.ext hyear hweek
  · intro h
    unfold weekKey
    rw [h]

theorem monthKey_eq_iff {a b : ℤ} :
    monthKey a = monthKey b ↔ (civil a).1 = (civil b).1 ∧ (civil a).2.1 = (civil b).2.1 := by
  constructor
  · intro h
    have ha := civil_bounds a
    have hb := civil_bounds b
    exact yearKey_injective (by omega) (by omega) h
  · rintro ⟨hyear, hmonth⟩
    unfold monthKey
    rw [hyear, hmonth]

/-- **The keys of two times are equal exactly when the times lie in one period.** -/
theorem periodKey_eq_iff (frequency : String) (a b : DateTime) :
    periodKey frequency a = periodKey frequency b ↔ SamePeriod frequency a b := by
  unfold periodKey SamePeriod
  split
  · rename_i heq
    rw [if_pos heq, String.ofList_inj, weekKey_eq_iff]
  · rename_i heq
    rw [if_neg (by rw [heq]; decide), if_pos heq, String.ofList_inj, monthKey_eq_iff]
  · rename_i hweekly hmonthly
    rw [if_neg hweekly, if_neg hmonthly, String.ofList_inj]
    exact ⟨fun h => dateText_injective h, fun h => congrArg dateText h⟩

/-! ### Due times -/

/-- A schedule has a send-day, whatever it names. -/
theorem exists_sendWeekday (days : List String) (frequency : String) :
    ∃ w, (sendWeekdays days frequency).contains w = true := by
  have hne : sendWeekdays days frequency ≠ [] := by
    unfold sendWeekdays
    dsimp only
    by_cases hexplicit : (days.filterMap parseWeekday).isEmpty = true
    · rw [hexplicit]
      simp only [Bool.not_true, Bool.false_eq_true, if_false]
      split
      · simp
      · simp
    · rw [Bool.not_eq_true] at hexplicit
      rw [hexplicit]
      simp only [Bool.not_false, if_true]
      intro hnil
      rw [hnil] at hexplicit
      cases hexplicit
  obtain ⟨w, rest, heq⟩ := List.exists_cons_of_ne_nil hne
  exact ⟨w, by rw [heq]; simp⟩

/-- The last time of a day, in the leap second if there is to be one. -/
def lastOf (days : ℤ) (leap : Bool) : DateTime where
  secs := days * 86400 + 86399
  nanos := if leap then 1999999999 else 999999999
  nanos_lt := by
    split_ifs
    · decide
    · decide
  leap h := by omega

theorem nanos_lastOf (days : ℤ) (leap : Bool) : 999999999 ≤ (lastOf days leap).nanos := by
  unfold lastOf
  dsimp only
  split_ifs
  · decide
  · decide

theorem dateNaive_lastOf (days : ℤ) (leap : Bool) : dateNaive (lastOf days leap) = days := by
  show (days * 86400 + 86399) / 86400 = days
  omega

/-- No send time is after the last time of a day. -/
theorem le_lastOf (t : NaiveTime) (days : ℤ) :
    t.le (timeOfDay (lastOf days (1000000000 ≤ t.frac))) = true := by
  have hsecs : (timeOfDay (lastOf days (1000000000 ≤ t.frac))).secs = 86399 := by
    show (days * 86400 + 86399) % 86400 = 86399
    omega
  have hfrac : t.frac ≤ (timeOfDay (lastOf days (1000000000 ≤ t.frac))).frac := by
    have hlt := t.frac_lt
    show t.frac ≤ if decide (1000000000 ≤ t.frac) = true then 1999999999 else 999999999
    split_ifs with h
    · omega
    · rw [decide_eq_true_eq] at h
      omega
  have hbounds := t.secs_bounds
  unfold NaiveTime.le
  rw [hsecs, Bool.or_eq_true, Bool.and_eq_true, decide_eq_true_eq, decide_eq_true_eq,
    decide_eq_true_eq]
  omega

/-- The window starts at the time of day at which it ends. -/
theorem windowStart_eq (s : Schedule) (hmin : 7 ≤ s.notifyDaysBefore)
    (hmax : s.notifyDaysBefore ≤ 36500) :
    ∃ start, s.windowStart = some start ∧ start.nanos < 1000000000 ∧
      start.secs = s.validTo.secs - s.notifyDaysBefore * 86400 := by
  obtain ⟨micros, hrange, hvalid⟩ := s.stored
  have hnanos : s.validTo.nanos < 1000000000 := by
    rw [hvalid]
    exact (storable_ofMicros micros).1
  have hsecs : s.validTo.secs = micros / 1000000 := by rw [hvalid]; rfl
  have hzero : s.validTo.nanos / 1000000000 = 0 := Nat.div_eq_of_lt hnanos
  have hlow : -210866803200000000 ≤ micros := hrange
  unfold Schedule.windowStart addDuration minSecs
  rw [if_neg (by omega), if_neg (by omega)]
  refine ⟨_, rfl, ?_, ?_⟩
  · show s.validTo.nanos % 1000000000 < 1000000000
    omega
  · show s.validTo.secs + -(s.notifyDaysBefore * 86400) + _ = _
    omega

/-- **A schedule of seven days or more is due at some time before the certificate expires.**  In a
leap second only if the send time is in one. -/
theorem exists_due (s : Schedule) (hmin : 7 ≤ s.notifyDaysBefore)
    (hmax : s.notifyDaysBefore ≤ 36500) :
    ∃ start now, s.windowStart = some start ∧ start ≤ now ∧ now < s.validTo ∧
      (s.notificationTime.frac < 1000000000 → now.nanos < 1000000000) ∧
      isDue s now (weekday (dateNaive now)) = some true := by
  obtain ⟨start, hstart, hnanos, hsecs⟩ := windowStart_eq s hmin hmax
  obtain ⟨w, hw⟩ := exists_sendWeekday s.notificationDays s.frequency
  obtain ⟨k, hk, hk', hweekday⟩ := exists_weekday (dateNaive start) w
  set days := dateNaive start + k with hdays
  set now := lastOf days (1000000000 ≤ s.notificationTime.frac) with hnow
  have hday : days = start.secs / 86400 + k := hdays
  have hnowSecs : now.secs = days * 86400 + 86399 := rfl
  have hbefore : now < s.validTo := by
    rw [lt_def, hnowSecs]
    omega
  have hafter : start ≤ now := by
    have hlast := nanos_lastOf days (1000000000 ≤ s.notificationTime.frac)
    rw [le_def, hnowSecs, hnow]
    omega
  refine ⟨start, now, hstart, hafter, hbefore, fun hfrac => ?_, ?_⟩
  · show (if decide (1000000000 ≤ s.notificationTime.frac) = true then 1999999999 else 999999999)
      < 1000000000
    rw [if_neg (by rw [decide_eq_true_eq]; omega)]
    decide
  · have hnot : ¬s.validTo ≤ now := not_le.mpr hbefore
    have hstarted : ¬now < start := by
      rw [← not_le, not_not]
      exact hafter
    have hdate : dateNaive now = days := dateNaive_lastOf days _
    unfold isDue
    rw [if_neg hnot, hstart, Option.map_some, if_neg hstarted, hdate, hweekday, hw]
    exact congrArg some (le_lastOf s.notificationTime days)

/-! ### Claims -/

theorem tryClaimWindow_of_mem {certificate windowKey : String} {ledger : Ledger}
    (h : (certificate, windowKey) ∈ ledger) :
    tryClaimWindow certificate windowKey ledger = (false, ledger) := if_pos h

theorem tryClaimWindow_of_not_mem {certificate windowKey : String} {ledger : Ledger}
    (h : (certificate, windowKey) ∉ ledger) :
    tryClaimWindow certificate windowKey ledger =
      (true, ledger ++ [(certificate, windowKey)]) := if_neg h

/-- What an evaluation does: nothing, or it claims the period and publishes a job. -/
theorem evaluate_cases (s : Schedule) (now : DateTime) (ledger : Ledger) :
    evaluate s now ledger = (none, ledger) ∨
      (s.certificate, periodKey s.frequency now) ∉ ledger ∧
        (evaluate s now ledger).2 = ledger ++ [(s.certificate, periodKey s.frequency now)] := by
  unfold evaluate
  by_cases hdue : isDue s now (weekday (dateNaive now)) ≠ some true
  · exact .inl (if_pos hdue)
  rw [if_neg hdue]
  by_cases hempty : s.notificationEmails.isEmpty = true
  · exact .inl (if_pos hempty)
  rw [if_neg hempty]
  dsimp only
  by_cases hclaimed : (s.certificate, periodKey s.frequency now) ∈ ledger
  · rw [tryClaimWindow_of_mem hclaimed]
    exact .inl rfl
  · rw [tryClaimWindow_of_not_mem hclaimed]
    exact .inr ⟨hclaimed, rfl⟩

/-- An evaluation that publishes a job claimed the period. -/
theorem evaluate_some {s : Schedule} {now : DateTime} {ledger : Ledger} {job : EmailJob}
    (h : (evaluate s now ledger).1 = some job) :
    (s.certificate, periodKey s.frequency now) ∉ ledger ∧
      (evaluate s now ledger).2 = ledger ++ [(s.certificate, periodKey s.frequency now)] := by
  rcases evaluate_cases s now ledger with heq | hclaimed
  · rw [heq] at h
    cases h
  · exact hclaimed

/-- The ledger grows. -/
theorem evaluate_subset (s : Schedule) (now : DateTime) (ledger : Ledger) :
    ledger ⊆ (evaluate s now ledger).2 := by
  rcases evaluate_cases s now ledger with heq | ⟨-, heq⟩
  · rw [heq]
    exact List.Subset.refl _
  · rw [heq]
    exact List.subset_append_left _ _

/-- The notices that are published when schedules are evaluated at some times, by any replicas: the
schedule and the time of each. -/
def published : Ledger → List (Schedule × DateTime) → List (Schedule × DateTime)
  | _, [] => []
  | ledger, r :: run =>
    if (evaluate r.1 r.2 ledger).1.isSome then r :: published (evaluate r.1 r.2 ledger).2 run
    else published (evaluate r.1 r.2 ledger).2 run

/-- What is in the ledger is not claimed again. -/
theorem not_mem_of_published {r : Schedule × DateTime} :
    ∀ (run : List (Schedule × DateTime)) (ledger : Ledger), r ∈ published ledger run →
      (r.1.certificate, periodKey r.1.frequency r.2) ∉ ledger := by
  intro run
  induction run with
  | nil =>
    intro ledger hmem
    cases hmem
  | cons head run ih =>
    intro ledger hmem
    have hsub := evaluate_subset head.1 head.2 ledger
    unfold published at hmem
    split_ifs at hmem with hjob
    · rcases List.mem_cons.mp hmem with rfl | hmem
      · obtain ⟨job, hjob⟩ := Option.isSome_iff_exists.mp hjob
        exact (evaluate_some hjob).1
      · exact fun hin => ih _ hmem (hsub hin)
    · exact fun hin => ih _ hmem (hsub hin)

/-- **No two published notices of a certificate with one frequency are in one period.** -/
theorem published_pairwise (run : List (Schedule × DateTime)) : ∀ ledger : Ledger,
    (published ledger run).Pairwise fun r r' =>
      r.1.certificate = r'.1.certificate → r.1.frequency = r'.1.frequency →
        ¬SamePeriod r.1.frequency r.2 r'.2 := by
  induction run with
  | nil => exact fun _ => List.Pairwise.nil
  | cons head run ih =>
    intro ledger
    unfold published
    split_ifs with hjob
    · rw [List.pairwise_cons]
      refine ⟨fun r' hr' hcertificate hfrequency hsame => ?_, ih _⟩
      obtain ⟨job, hjob⟩ := Option.isSome_iff_exists.mp hjob
      have hkey := (periodKey_eq_iff head.1.frequency head.2 r'.2).mpr hsame
      have hnot := not_mem_of_published run _ hr'
      rw [(evaluate_some hjob).2, ← hcertificate, ← hfrequency, ← hkey] at hnot
      exact hnot (List.mem_append_right _ (List.mem_singleton_self _))
    · exact ih _

/-- **Expiry notices are neither skipped nor repeated by the calendar.** -/
theorem notices (s : Schedule) (hmin : 7 ≤ s.notifyDaysBefore)
    (hmax : s.notifyDaysBefore ≤ 36500) :
    (∃ start now, s.windowStart = some start ∧ start ≤ now ∧ now < s.validTo ∧
      (s.notificationTime.frac < 1000000000 → now.nanos < 1000000000) ∧
      isDue s now (weekday (dateNaive now)) = some true) ∧
    (∀ a b, periodKey s.frequency a = periodKey s.frequency b ↔ SamePeriod s.frequency a b) ∧
    ∀ ledger run, (published ledger run).Pairwise fun r r' =>
      r.1.certificate = r'.1.certificate → r.1.frequency = r'.1.frequency →
        ¬SamePeriod r.1.frequency r.2 r'.2 :=
  ⟨exists_due s hmin hmax, periodKey_eq_iff s.frequency,
    fun ledger run => published_pairwise run ledger⟩

/-- A weekly schedule of exactly seven days, on a day that it does not name well. -/
def sevenDays : Schedule where
  certificate := "cn=example.com"
  validTo := .ofMicros 1735689600000000
  notificationEmails := ["ops@example.com"]
  frequency := "weekly"
  notificationTime := ⟨32400, 0, by decide, by decide, by decide⟩
  notificationDays := ["Wednesday", "Someday"]
  subject := "Certificate Expiration Notification"
  body := ""
  notifyDaysBefore := 7
  stored := ⟨1735689600000000, by decide, rfl⟩

theorem notices_sevenDays : ∃ start now, sevenDays.windowStart = some start ∧ start ≤ now ∧
    now < sevenDays.validTo ∧ isDue sevenDays now (weekday (dateNaive now)) = some true := by
  obtain ⟨⟨start, now, hstart, hafter, hbefore, -, hdue⟩, -, -⟩ :=
    notices sevenDays (by decide) (by decide)
  exact ⟨start, now, hstart, hafter, hbefore, hdue⟩

end Ostrich.Notify
