import Mathlib.Algebra.Ring.Nat
import Ostrich.Lib.Net

/-!
# The audit rate limiter (`ostrich-common/src/grpc_tls.rs`)

`AuditRateLimiter` is behind a mutex, so its calls come one after another, with instants that do not
decrease: an event (`onEvent`), the flush timer (`roll`) or the shutdown (`takeSuppressed`).
Instants and the window are nanoseconds; the readings of the wall clock are given with each call.
-/

namespace Ostrich.Common.AuditRateLimiter

open Net

/-- Upper bound on the distinct sources a limiter window remembers for its summary. -/
def summaryMaxTrackedSources : ℕ := 4096

/-- `u64::MAX`, where `saturating_add` stops. -/
def u64Max : ℕ := 2 ^ 64 - 1

/-- `IpAddr::to_canonical`. -/
def toCanonical : IpAddr → IpAddr
  | .v4 a => .v4 a
  | .v6 a =>
    match toIpv4Mapped a with
    | some v4 => .v4 v4
    | none => .v6 a

/-- The IPv4 address (IPv4-mapped IPv6 included) or the IPv6 /64. -/
def sourceKey (ip : IpAddr) : IpAddr :=
  match toCanonical ip with
  | .v6 v6 => .v6 ⟨fun i => if i.val < 4 then v6.segments i else 0⟩
  | v4 => v4

/-- What one limiter window suppressed. -/
structure SuppressedSummary where
  count : ℕ
  windowStart : ℤ
  windowEnd : ℤ
  distinctSources : ℕ
  distinctSourcesCapped : Bool

/-- Outcome of `onEvent`. -/
structure LimiterDecision where
  record : Bool
  flushedSuppressed : Option SuppressedSummary

/-- Fixed-window limiter for one kind of audit record. -/
structure AuditRateLimiter where
  max : ℕ
  window : ℕ
  windowStart : ℕ
  windowStartWall : ℤ
  recorded : ℕ
  suppressed : ℕ
  suppressedSources : List IpAddr
  sourcesCapped : Bool

/-- What `Utc::now()` gives when a summary is taken and when a window begins. -/
structure WallClock where
  taken : ℤ
  begun : ℤ

def AuditRateLimiter.new (now : ℕ) (wall : ℤ) (max window : ℕ) : AuditRateLimiter :=
  ⟨max, window, now, wall, 0, 0, [], false⟩

/-- Take what has been suppressed so far, leaving zero. -/
def takeSuppressed (l : AuditRateLimiter) (wall : WallClock) :
    AuditRateLimiter × Option SuppressedSummary :=
  let taken := { l with suppressed := 0, suppressedSources := [], sourcesCapped := false }
  if l.suppressed = 0 then (taken, none)
  else ({ taken with windowStartWall := wall.taken },
    some ⟨l.suppressed, l.windowStartWall, wall.taken, l.suppressedSources.length,
      l.sourcesCapped⟩)

/-- Start a new window if the current one has ended. -/
def roll (l : AuditRateLimiter) (now : ℕ) (wall : WallClock) :
    AuditRateLimiter × Option SuppressedSummary :=
  if now - l.windowStart < l.window then (l, none)
  else
    let (l, flushed) := takeSuppressed l wall
    ({ l with windowStart := now, windowStartWall := wall.begun, recorded := 0 }, flushed)

/-- Remember the source of a suppressed event. -/
def noteSource (l : AuditRateLimiter) (ip : IpAddr) : AuditRateLimiter :=
  let key := sourceKey ip
  if l.suppressedSources.length < summaryMaxTrackedSources then
    { l with suppressedSources := l.suppressedSources.insert key }
  else if key ∉ l.suppressedSources then { l with sourcesCapped := true }
  else l

/-- Count one event from `source` and decide whether to record it. -/
def onEvent (l : AuditRateLimiter) (now : ℕ) (source : Option IpAddr) (wall : WallClock) :
    AuditRateLimiter × LimiterDecision :=
  let (l, flushedSuppressed) := roll l now wall
  if l.recorded < l.max then
    ({ l with recorded := l.recorded + 1 }, ⟨true, flushedSuppressed⟩)
  else
    let l := { l with suppressed := min (l.suppressed + 1) u64Max }
    (match source with
      | some ip => noteSource l ip
      | none => l, ⟨false, flushedSuppressed⟩)

/-! ### Runs -/

/-- A call of the limiter. -/
inductive Call where
  | onEvent (now : ℕ) (source : Option IpAddr)
  | roll (now : ℕ)
  | takeSuppressed

/-- A call with what came out of it. -/
structure Outcome where
  call : Call
  record : Bool
  flushed : Option SuppressedSummary

def step (l : AuditRateLimiter) (call : Call) (wall : WallClock) : AuditRateLimiter × Outcome :=
  match call with
  | .onEvent now source =>
    let (l, decision) := onEvent l now source wall
    (l, ⟨call, decision.record, decision.flushedSuppressed⟩)
  | .roll now =>
    let (l, flushed) := roll l now wall
    (l, ⟨call, false, flushed⟩)
  | .takeSuppressed =>
    let (l, flushed) := takeSuppressed l wall
    (l, ⟨call, false, flushed⟩)

/-- The calls one after another, each with its readings of the wall clock. -/
def run (l : AuditRateLimiter) : List (Call × WallClock) → AuditRateLimiter × List Outcome
  | [] => (l, [])
  | (call, wall) :: calls =>
    let (l, outcome) := step l call wall
    let (l, outcomes) := run l calls
    (l, outcome :: outcomes)

end Ostrich.Common.AuditRateLimiter
