import Ostrich.Lib.Time
import Mathlib.Logic.Function.Basic

/-!
# Account lockout (`ostrich-common/src/auth/lockout.rs`)

Failed attempts are kept per account; as many as the threshold within the window lock it, for a time
or until an administrator unlocks it.  Every function reads the clock each time it needs it: `now i`
is the reading `i` of a call.
-/

namespace Ostrich.Common

/-! ### Configuration and state -/

structure LockoutConfig where
  maxFailedAttempts : UInt32
  lockoutDurationSecs : ℤ
  failureWindowSecs : ℤ
  permanentLockout : Bool
  lockoutsBeforePermanent : UInt32

inductive LockoutStatus where
  | Active
  | TemporarilyLocked
  | PermanentlyLocked
  deriving DecidableEq, Repr

structure FailedAttempt where
  timestamp : DateTime
  ipAddress : Option String
  reason : String

structure AccountState where
  status : LockoutStatus
  failedAttempts : List FailedAttempt
  totalLockouts : UInt32
  lockedAt : Option DateTime
  lockoutExpiresAt : Option DateTime
  lastSuccess : Option DateTime

inductive LockoutError where
  | LockPoisoned
  | PermanentlyLocked
  /-- The call panicked. -/
  | Panic
  deriving DecidableEq, Repr

namespace AccountState

/-- Create new account state. -/
def new : AccountState where
  status := .Active
  failedAttempts := []
  totalLockouts := 0
  lockedAt := none
  lockoutExpiresAt := none
  lastSuccess := none

/-- The failed attempts after a time. -/
def since (cutoff : DateTime) (attempts : List FailedAttempt) : List FailedAttempt :=
  attempts.filter (cutoff < ·.timestamp)

/-- Get count of recent failed attempts within the window; `none` where the subtraction panics. -/
def recentFailureCount (windowSecs : ℤ) (now : DateTime) (s : AccountState) : Option UInt32 :=
  (now.addDuration (-windowSecs)).map fun cutoff =>
    UInt32.ofNat (since cutoff s.failedAttempts).length

/-- Check if lockout has expired. -/
def isLockoutExpired (now : DateTime) (s : AccountState) : Bool :=
  match s.status with
  | .Active => true
  | .PermanentlyLocked => false
  | .TemporarilyLocked =>
    match s.lockoutExpiresAt with
    | some expires => expires < now
    | none => true

/-- A lockout that has expired is over. -/
def reset (now : DateTime) (s : AccountState) : AccountState :=
  if s.status = .TemporarilyLocked ∧ s.isLockoutExpired now then
    { s with status := .Active, lockedAt := none, lockoutExpiresAt := none }
  else s

/-- Lock the account: for good after enough lockouts, else for a time. -/
def lockOut (config : LockoutConfig) (now : ℕ → DateTime) (s : AccountState) :
    Except LockoutError LockoutStatus × AccountState :=
  let s := { s with totalLockouts := s.totalLockouts + 1 }
  if config.permanentLockout ∧ config.lockoutsBeforePermanent ≤ s.totalLockouts then
    (.ok .PermanentlyLocked,
      { s with status := .PermanentlyLocked, lockedAt := some (now 4), lockoutExpiresAt := none })
  else
    let s := { s with status := .TemporarilyLocked, lockedAt := some (now 4) }
    match (now 5).addDuration config.lockoutDurationSecs with
    | none => (.error .Panic, s)
    | some expires => (.ok .TemporarilyLocked, { s with lockoutExpiresAt := some expires })

/-- Record a failed attempt of the account. -/
def recordFailure (config : LockoutConfig) (now : ℕ → DateTime) (ipAddress : Option String)
    (reason : String) (s : AccountState) : Except LockoutError LockoutStatus × AccountState :=
  let s := s.reset (now 0)
  if s.status = .PermanentlyLocked then (.ok .PermanentlyLocked, s)
  else
    let attempt : FailedAttempt := { timestamp := now 1, ipAddress, reason }
    let s := { s with failedAttempts := s.failedAttempts ++ [attempt] }
    match (now 2).addDuration (-config.failureWindowSecs) with
    | none => (.error .Panic, s)
    | some cutoff =>
      let s := { s with failedAttempts := since cutoff s.failedAttempts }
      match s.recentFailureCount config.failureWindowSecs (now 3) with
      | none => (.error .Panic, s)
      | some failureCount =>
        if config.maxFailedAttempts ≤ failureCount then s.lockOut config now
        else (.ok .Active, s)

end AccountState

/-! ### The manager -/

/-- The accounts behind the lock; a panic of a writer poisons it. -/
structure AuthLockout where
  accounts : String → Option AccountState
  poisoned : Bool

namespace AuthLockout

def new : AuthLockout where
  accounts _ := none
  poisoned := false

/-- Check if an account is allowed to attempt authentication. -/
def isAuthenticationAllowed (now : ℕ → DateTime) (accountId : String) (l : AuthLockout) :
    Except LockoutError Bool :=
  if l.poisoned then .error .LockPoisoned
  else match l.accounts accountId with
    | none => .ok true
    | some s =>
      match s.status with
      | .Active => .ok true
      | .PermanentlyLocked => .ok false
      | .TemporarilyLocked => .ok (s.isLockoutExpired (now 0))

/-- The account after a call. -/
def put (accountId : String) (s : AccountState) (l : AuthLockout) : AuthLockout :=
  { l with accounts := Function.update l.accounts accountId (some s) }

/-- Record a failed authentication attempt. -/
def recordFailure (config : LockoutConfig) (now : ℕ → DateTime) (accountId : String)
    (ipAddress : Option String) (reason : String) (l : AuthLockout) :
    Except LockoutError LockoutStatus × AuthLockout :=
  if l.poisoned then (.error .LockPoisoned, l)
  else
    let s := (l.accounts accountId).getD .new
    let (r, s) := s.recordFailure config now ipAddress reason
    (r, { l.put accountId s with poisoned := match r with | .error .Panic => true | _ => false })

/-- Record a successful authentication. -/
def recordSuccess (now : ℕ → DateTime) (accountId : String) (l : AuthLockout) :
    Except LockoutError Unit × AuthLockout :=
  if l.poisoned then (.error .LockPoisoned, l)
  else match l.accounts accountId with
    | none => (.ok (), l)
    | some s =>
      if s.status = .PermanentlyLocked then (.error .PermanentlyLocked, l)
      else
        (.ok (), l.put accountId
          { s with
            status := .Active
            failedAttempts := []
            lockedAt := none
            lockoutExpiresAt := none
            lastSuccess := some (now 0) })

/-- Admin unlock. -/
def adminUnlock (accountId : String) (l : AuthLockout) : Except LockoutError Unit × AuthLockout :=
  if l.poisoned then (.error .LockPoisoned, l)
  else match l.accounts accountId with
    | none => (.ok (), l)
    | some s =>
      (.ok (), l.put accountId
        { s with
          status := .Active, failedAttempts := [], lockedAt := none, lockoutExpiresAt := none })

/-! ### Runs -/

inductive Event where
  | isAuthenticationAllowed (accountId : String)
  | recordFailure (accountId : String) (ipAddress : Option String) (reason : String)
  | recordSuccess (accountId : String)
  | adminUnlock (accountId : String)
  deriving DecidableEq

/-- The state after a call. -/
def step (config : LockoutConfig) (now : ℕ → DateTime) (l : AuthLockout) : Event → AuthLockout
  | .isAuthenticationAllowed _ => l
  | .recordFailure accountId ipAddress reason =>
    (l.recordFailure config now accountId ipAddress reason).2
  | .recordSuccess accountId => (l.recordSuccess now accountId).2
  | .adminUnlock accountId => (l.adminUnlock accountId).2

/-- A run: the calls, and the readings of the clock in nanoseconds, eight for a call. -/
structure Run where
  event : ℕ → Event
  clock : ℕ → ℤ
  monotone : ∀ ⦃i j⦄, i ≤ j → clock i ≤ clock j

namespace Run

/-- The readings of call `i`. -/
def now (r : Run) (i : ℕ) : ℕ → DateTime := fun j => .ofNanos (r.clock (8 * i + j))

/-- The state before call `i`. -/
def state (r : Run) (config : LockoutConfig) : ℕ → AuthLockout
  | 0 => new
  | i + 1 => step config (r.now i) (r.state config i) (r.event i)

end Run

end AuthLockout

end Ostrich.Common
