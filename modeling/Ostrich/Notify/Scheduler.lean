import Ostrich.Notify.Contract

/-!
# The scheduler of expiry notices (`notify-server/src/{scheduler,db}.rs`)

On each tick a replica of the scheduler goes through the active schedules.  For one that is due it
claims the period in the ledger of sent notices, a table with the certificate and the key of the
period as its primary key, and publishes the notice if the claim was the first.  A claim is one
statement, so what several replicas do is a list of such statements in some order.
-/

namespace Ostrich.Notify

/-- A time of day: seconds and nanoseconds, which reach two billions in a leap second. -/
structure NaiveTime where
  secs : ℤ
  frac : ℕ
  secs_bounds : 0 ≤ secs ∧ secs < 86400
  frac_lt : frac < 2000000000
  leap : 1000000000 ≤ frac → secs % 60 = 59

/-- Earlier in the day or the same. -/
def NaiveTime.le (a b : NaiveTime) : Bool :=
  decide (a.secs < b.secs) || decide (a.secs = b.secs) && decide (a.frac ≤ b.frac)

theorem secs_bounds (t : DateTime) : 0 ≤ t.secs % 86400 ∧ t.secs % 86400 < 86400 :=
  ⟨Int.emod_nonneg _ (by decide), Int.emod_lt_of_pos _ (by decide)⟩

theorem secs_leap (t : DateTime) (h : 1000000000 ≤ t.nanos) : t.secs % 86400 % 60 = 59 := by
  have hleap := t.leap h
  omega

/-- The time of day. -/
def timeOfDay (t : DateTime) : NaiveTime :=
  ⟨t.secs % 86400, t.nanos, secs_bounds t, t.nanos_lt, secs_leap t⟩

/-- A stored, active notification schedule.  The end of the validity comes from the database. -/
structure Schedule where
  certificate : String
  validTo : DateTime
  notificationEmails : List String
  frequency : String
  notificationTime : NaiveTime
  notificationDays : List String
  subject : String
  body : String
  notifyDaysBefore : ℤ
  stored : ∃ micros, DateTime.minTimestamp ≤ micros ∧ validTo = .ofMicros micros

/-- The first time at which a schedule may send; `none` where the subtraction panics. -/
def Schedule.windowStart (s : Schedule) : Option DateTime :=
  s.validTo.addDuration (-(s.notifyDaysBefore * 86400))

/-- A schedule is due: its certificate is in the notify window and has not expired, today is a
send-day, and it is at or after the send time.  `none` stands for a panic. -/
def isDue (s : Schedule) (now : DateTime) (weekday : Weekday) : Option Bool :=
  if s.validTo ≤ now then some false
  else s.windowStart.map fun windowStart =>
    if now < windowStart then false
    else if !(sendWeekdays s.notificationDays s.frequency).contains weekday then false
    else s.notificationTime.le (timeOfDay now)

structure EmailJob where
  to_ : List String
  subject : String
  body : String
  certificate : String
  windowKey : String
  deriving DecidableEq, Repr

/-- The primary keys of the table of sent notices. -/
abbrev Ledger := List (String × String)

theorem lawful_claim : LawfulBEq (String × String) := inferInstance

attribute [local instance] lawful_claim

/-- Claim a send slot: whether this claim is the first, and the table after it. -/
def tryClaimWindow (certificate windowKey : String) (ledger : Ledger) : Bool × Ledger :=
  if (certificate, windowKey) ∈ ledger then (false, ledger)
  else (true, ledger ++ [(certificate, windowKey)])

/-- What a replica does with one schedule at a time: the job that it publishes. -/
def evaluate (s : Schedule) (now : DateTime) (ledger : Ledger) : Option EmailJob × Ledger :=
  if isDue s now (DateTime.weekday (dateNaive now)) ≠ some true then (none, ledger)
  else if s.notificationEmails.isEmpty then (none, ledger)
  else
    let windowKey := periodKey s.frequency now
    let claim := tryClaimWindow s.certificate windowKey ledger
    if !claim.1 then (none, claim.2)
    else (some { to_ := s.notificationEmails, subject := s.subject, body := s.body
                 certificate := s.certificate, windowKey }, claim.2)

end Ostrich.Notify
