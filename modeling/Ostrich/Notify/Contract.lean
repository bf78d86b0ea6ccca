import Ostrich.Lib.Calendar

/-!
# The notify contract (`ostrich-notify-contract/src/lib.rs`)

What the producer of expiry notices and the scheduler share: the names of the days, the days on
which a schedule sends, and the key of the period in which it sends once.
-/

namespace Ostrich.Notify

open Text DateTime

/-- The day of a name, long or short, in any case and between spaces. -/
def parseWeekday (s : String) : Option Weekday :=
  match toAsciiLowercase (trim s) with
  | "mon" | "monday" => some .Mon
  | "tue" | "tuesday" => some .Tue
  | "wed" | "wednesday" => some .Wed
  | "thu" | "thursday" => some .Thu
  | "fri" | "friday" => some .Fri
  | "sat" | "saturday" => some .Sat
  | "sun" | "sunday" => some .Sun
  | _ => none

/-- The days on which a schedule sends: those it names, or those of its frequency. -/
def sendWeekdays (days : List String) (frequency : String) : List Weekday :=
  let explicit := days.filterMap parseWeekday
  if !explicit.isEmpty then explicit
  else
    match toAsciiLowercase frequency with
    | "daily" => [.Mon, .Tue, .Wed, .Thu, .Fri, .Sat, .Sun]
    | _ => [.Mon]

/-- A number as it is printed. -/
def intText (n : ℤ) : List Char :=
  if n < 0 then '-' :: (toString n.natAbs).toList else (toString n.natAbs).toList

/-- The day of a time. -/
def dateNaive (t : DateTime) : ℤ := t.secs / 86400

/-- `{year}-W{week:02}`. -/
def weekKey (days : ℤ) : List Char :=
  intText (isoWeek days).1 ++ ("-W".toList ++ decFixed 2 (isoWeek days).2.toNat)

/-- `{year}-{month:02}`. -/
def monthKey (days : ℤ) : List Char :=
  intText (civil days).1 ++ ("-".toList ++ decFixed 2 (civil days).2.1.toNat)

/-- The key of the period of a frequency in which a time lies. -/
def periodKey (frequency : String) (now : DateTime) : String :=
  match toAsciiLowercase frequency with
  | "weekly" => String.ofList (weekKey (dateNaive now))
  | "monthly" => String.ofList (monthKey (dateNaive now))
  | _ => String.ofList (dateText (dateNaive now))

end Ostrich.Notify
