import Ostrich.Lib.Time

/-!
# Reliable time stamps (`ostrich-common/src/util/trusted_time.rs`)

The module keeps, in global cells, the configuration of the time source, whether it counts as
reliable, and the Unix time of the last timestamp that was good.  Every function that reads the
clock takes the reading as `now`.
-/

namespace Ostrich.Common.TrustedTime

/-- `MAX_CLOCK_SKEW_SECONDS`. -/
def maxClockSkewSeconds : ℤ := 60

inductive TimeSourceType where
  | System
  | Ntp
  | Hsm
  | Gps
  | Tsa
  | AuthenticatedNtp
  deriving DecidableEq, Repr

structure TimeSourceConfig where
  sourceType : TimeSourceType
  ntpServers : List String

inductive TimeError where
  | TimeSourceUnavailable (reason : String)
  | ClockSkewExceeded (expected actual : DateTime) (skewSeconds : ℤ)
  | TimeWentBackward (current lastKnown : DateTime)
  deriving DecidableEq, Repr

/-- The cells. -/
structure TimeState where
  timeSource : Option TimeSourceConfig
  timeReliable : Bool
  lastKnownGoodTime : ℤ

/-- The cells at the start of the program. -/
def TimeState.initial : TimeState := ⟨none, true, 0⟩

/-- `DateTime::from_timestamp(secs, 0)`. -/
def fromTimestamp (secs : ℤ) : Option DateTime :=
  if DateTime.minSecs ≤ secs ∧ secs ≤ DateTime.maxSecs then some (.ofMicros (secs * 1000000))
  else none

/-- Initialize the time subsystem with configuration. -/
def initializeTimeSource (config : TimeSourceConfig) (now : DateTime) (_ : TimeState) :
    TimeState where
  timeSource := some config
  timeReliable :=
    match config.sourceType with
    | .System => true
    | .Ntp | .AuthenticatedNtp => !config.ntpServers.isEmpty
    | .Hsm | .Gps | .Tsa => false
  lastKnownGoodTime := now.secs

/-- The current time for certificate operations. -/
def getCertificateTime (now : DateTime) (s : TimeState) : Except TimeError DateTime :=
  if !s.timeReliable then
    .error (.TimeSourceUnavailable "Time source is not reliable for certificate operations")
  else .ok now

/-- Validate that a timestamp is within acceptable bounds. -/
def validateTimestamp (timestamp now : DateTime) (s : TimeState) :
    Except TimeError Unit × TimeState :=
  let skew : ℤ := (now.secondsSince timestamp).natAbs
  if maxClockSkewSeconds < skew then (.error (.ClockSkewExceeded now timestamp skew), s)
  -- also check for time going backwards
  else if timestamp.secs < s.lastKnownGoodTime - maxClockSkewSeconds then
    (.error (.TimeWentBackward timestamp
      ((fromTimestamp s.lastKnownGoodTime).getD (.ofMicros 0))), s)
  else (.ok (), { s with lastKnownGoodTime := timestamp.secs })

/-- Mark time source as unreliable. -/
def markTimeUnreliable (s : TimeState) : TimeState := { s with timeReliable := false }

/-- Mark time source as reliable after verification. -/
def markTimeReliable (now : DateTime) (s : TimeState) : TimeState :=
  { s with timeReliable := true, lastKnownGoodTime := now.secs }

end Ostrich.Common.TrustedTime
