import Ostrich.Common.Auth
import Ostrich.Common.Lockout
import Ostrich.Lib.Interleave

/-!
# Password authentication (`ostrich-common/src/auth/password.rs`,
`ostrich-db/src/repository/users.rs`)

`authenticate_password` looks the user up, compares the password and then records the failure or
resets the counters, each in a statement of its own.  The system is that of one user: the row, and
the clock of the server.  `guesses` is no part of the program: it counts the wrong passwords that
were compared since a lock expired or the counters were reset.
-/

namespace Ostrich.Common

open Interleave

/-! ### Users -/

/-- The role of a text. -/
def Role.fromStr (s : String) : Except String Role :=
  match s with
  | "administrator" | "Administrator" => .ok .Administrator
  | "auditor" | "Auditor" => .ok .Auditor
  | "operations_staff" | "OperationsStaff" => .ok .OperationsStaff
  | "ra_staff" | "RaStaff" => .ok .RaStaff
  | "aor" | "Aor" | "AOR" => .ok .Aor
  | "est_enrollee" | "EstEnrollee" => .ok .EstEnrollee
  | "est_device" | "EstDevice" => .ok .EstDevice
  | "pki_sponsor" | "PkiSponsor" => .ok .PkiSponsor
  | "pki_sponsor_admin" | "PkiSponsorAdmin" => .ok .PkiSponsorAdmin
  | "registration_authority" | "RegistrationAuthority" => .ok .RegistrationAuthority
  | "caa_admin" | "CaaAdmin" => .ok .CaaAdmin
  | "npe_auditor" | "NpeAuditor" => .ok .NpeAuditor
  | _ => .error s!"Unknown role: {s}"

/-- The values of the column `status`. -/
inductive AccountStatus where
  | Active
  | Locked
  | Suspended
  | Disabled
  | PendingActivation
  deriving DecidableEq, Repr

inductive AuthError where
  | InvalidCredentials
  | AccountLocked (until_ : String)
  | AccountSuspended
  | AccountDisabled
  | UserNotFound
  | InvalidSession
  | SessionLimitReached
  | Internal (text : String)
  /-- The call panicked. -/
  | Panic
  deriving DecidableEq, Repr

structure UserAccount where
  id : Uuid
  username : String
  passwordHash : Option String
  roles : List Role
  status : AccountStatus
  lockedUntil : Option DateTime
  failedAttempts : ℕ

instance neZero_failedAttempts : @NeZero ℕ Zero.ofOfNat0 2147483648 := ⟨by decide⟩

/-- A row of the table of users. -/
structure UserRow where
  id : Uuid
  username : String
  passwordHash : Option String
  roles : List String
  status : AccountStatus
  lockedUntil : Option DateTime
  /-- 32 bits, and not negative. -/
  failedAttempts : Fin 2147483648
  lockoutCount : ℤ

/-- The account of a row. -/
def UserRow.intoAccount (row : UserRow) : Except AuthError UserAccount :=
  match row.roles.mapM Role.fromStr with
  | .error e => .error (.Internal s!"Invalid role in database: {e}")
  | .ok roles => .ok
    { id := row.id
      username := row.username
      passwordHash := row.passwordHash
      roles
      status := row.status
      lockedUntil := row.lockedUntil
      failedAttempts := row.failedAttempts.val }

/-! ### The lockout of the database -/

structure LockoutPolicy where
  maxAttempts : UInt32
  lockoutSecs : ℤ
  permanentAfter : Option UInt32

def LockoutPolicy.ofConfig (c : LockoutConfig) : LockoutPolicy where
  maxAttempts := c.maxFailedAttempts
  lockoutSecs := c.lockoutDurationSecs
  permanentAfter := if c.permanentLockout then some (max c.lockoutsBeforePermanent 1) else none

structure LockoutOutcome where
  nowLocked : Bool
  nowPermanent : Bool
  deriving DecidableEq, Repr

def LockoutOutcome.default : LockoutOutcome := ⟨false, false⟩

namespace Password

/-- The integer of 32 bits, by wrapping around. -/
def toI32 (n : ℤ) : ℤ := (n + 2147483648) % 4294967296 - 2147483648

/-- The error of a statement. -/
def refused : AuthError := .Internal "Database error"

/-- Record a failed attempt, on the locked row; `now` was read before. -/
def recordFailedAttempt (policy : LockoutPolicy) (now : DateTime) (row : UserRow) :
    Except AuthError LockoutOutcome × UserRow :=
  let maxAttempts := toI32 (max policy.maxAttempts 1).toNat
  let tempLocked := row.lockedUntil.any (now < ·)
  if row.status ≠ .Active ∨ tempLocked then (.ok .default, row)
  else
    -- a prior lock that has expired ends the episode
    let priorLockExpired := row.lockedUntil.any (· ≤ now)
    let failed := if priorLockExpired then 1 else toI32 (row.failedAttempts.val + 1)
    let lockedUntil := if priorLockExpired then none else row.lockedUntil
    -- the constraint of the column
    let update (outcome : LockoutOutcome) (new : UserRow) :
        Except AuthError LockoutOutcome × UserRow :=
      if failed < 0 then (.error refused, row)
      else (.ok outcome, { new with failedAttempts := Fin.ofNat _ failed.toNat })
    if maxAttempts ≤ failed then
      match now.addDuration policy.lockoutSecs with
      | none => (.error .Panic, row)
      | some t =>
        match t.timestamptz with
        | none => (.error refused, row)
        | some t =>
          let lockoutCount := toI32 (row.lockoutCount + 1)
          let permanent := policy.permanentAfter.any fun threshold =>
            toI32 threshold.toNat ≤ lockoutCount
          update ⟨true, permanent⟩
            { row with
              lockoutCount
              lockedUntil := some t
              status := if permanent then .Locked else row.status }
    else update .default { row with lockedUntil }

/-- Reset the counters. -/
def resetFailedAttempts (row : UserRow) : UserRow :=
  { row with failedAttempts := 0, lockoutCount := 0, lockedUntil := none }

/-- Administrative unlock: clear the counters and lift a permanent lock.  Suspended and disabled
accounts keep their status. -/
def unlockAccount (row : UserRow) : UserRow :=
  { row with
    failedAttempts := 0
    lockoutCount := 0
    lockedUntil := none
    status := if row.status = .Locked then .Active else row.status }

/-! ### Calls -/

inductive AuthAuditKind where
  | LoginFailed
  | AccountLocked
  deriving DecidableEq, Repr

inductive Call where
  | findByUsername
  /-- `Utc::now`. -/
  | now
  | verifyPassword (password hash : String)
  | recordFailedAttempt (now : DateTime)
  | resetFailedAttempts
  | updateLastLogin (id : Uuid)
  | audit (kind : AuthAuditKind) (reason : String)

abbrev Reply : Call → Type
  | .findByUsername => Except AuthError (Option UserAccount)
  | .now => DateTime
  | .verifyPassword _ _ => Except AuthError Bool
  | .recordFailedAttempt _ => Except AuthError LockoutOutcome
  | .resetFailedAttempts | .updateLastLogin _ => Except AuthError Unit
  | .audit _ _ => Unit

abbrev AuthM := Prog Call Reply AuthError

/-- Make a call. -/
def await (e : Call) : AuthM (Reply e) := Prog.perform e

/-! ### The provider -/

/-- A wrong password: record the failed attempt. -/
def failed : AuthM AuthenticatedUser := do
  let now ← await .now
  match ← await (.recordFailedAttempt now) with
  | .error .Panic => .fail .Panic
  | reply =>
    let outcome := match reply with
      | .ok outcome => outcome
      | .error _ => .default
    await (.audit .LoginFailed "invalid_password")
    if outcome.nowLocked then
      await (.audit .AccountLocked
        (if outcome.nowPermanent then "permanent_lockout" else "max_failed_attempts"))
      .fail .InvalidCredentials
    else .fail .InvalidCredentials

/-- The password is valid: reset the counters and create the user. -/
def succeeded (account : UserAccount) : AuthM AuthenticatedUser := do
  let _ ← await .resetFailedAttempts
  let _ ← await (.updateLastLogin account.id)
  return { id := account.id, username := account.username, roles := account.roles
           certificateSubject := none }

/-- Verify password. -/
def checkPassword (password : String) (account : UserAccount) : AuthM AuthenticatedUser :=
  match account.passwordHash with
  | none => .fail .InvalidCredentials
  | some hash => do
    match ← await (.verifyPassword password hash) with
    | .error e => .fail e
    | .ok false => failed
    | .ok true => succeeded account

/-- Check account status. -/
def checkAccount (password : String) (account : UserAccount) : AuthM AuthenticatedUser :=
  match account.status with
  | .Active =>
    match account.lockedUntil with
    | none => checkPassword password account
    | some until_ => do
      let now ← await .now
      if now < until_ then .fail (.AccountLocked until_.toRfc3339)
      else checkPassword password account
  | .Locked => .fail (.AccountLocked "indefinite (admin must unlock)")
  | .Suspended => .fail .AccountSuspended
  | .Disabled => .fail .AccountDisabled
  | .PendingActivation => .fail .AccountDisabled

/-- Authenticate with username and password. -/
def authenticatePassword (password : String) : AuthM AuthenticatedUser := do
  match ← await .findByUsername with
  | .error e => .fail e
  | .ok none => .fail .InvalidCredentials
  | .ok (some account) => checkAccount password account

/-! ### The system -/

/-- The row of the user, the clock in nanoseconds, and the count of the guesses. -/
structure Store where
  row : Option UserRow
  clock : ℤ
  guesses : ℕ

namespace Store

/-- What the clock shows. -/
def time (s : Store) : DateTime := .ofNanos s.clock

/-- The time until which the user is locked. -/
def lockedUntil (s : Store) : Option DateTime := s.row.bind UserRow.lockedUntil

/-- Time goes on; a lock that expires ends the count. -/
def wait (elapsed : ℕ) (s : Store) : Store :=
  let clock := s.clock + elapsed
  { s with
    clock
    guesses :=
      if s.lockedUntil.any fun t => s.time < t ∧ t ≤ DateTime.ofNanos clock then 0 else s.guesses }

end Store

/-- What the tasks do not control: the time that a step takes, and whether a statement fails, and
then whether it still did what it was asked to. -/
structure Choice where
  elapsed : ℕ
  fault : Option (AuthError × Bool)

/-- The result of a statement, or its failure. -/
def Choice.reply {α : Type} (c : Choice) (s : Store) (r : Except AuthError α × Store) :
    Except AuthError α × Store :=
  match c.fault with
  | none => r
  | some (e, applied) => (.error e, if applied then r.2 else s)

/-- A failed attempt; a lock that is over at once ends the count. -/
def applyFailure (policy : LockoutPolicy) (now : DateTime) (s : Store) :
    Except AuthError LockoutOutcome × Store :=
  match s.row with
  | none => (.ok .default, s)
  | some row =>
    let (r, row) := recordFailedAttempt policy now row
    let expired := match r with
      | .ok outcome => outcome.nowLocked && row.lockedUntil.any (· ≤ s.time)
      | .error _ => false
    (r, { s with row := some row, guesses := if expired then 0 else s.guesses })

/-- Answer a call. -/
def exec (verifyPassword : String → String → Except AuthError Bool) (policy : LockoutPolicy)
    (e : Call) (c : Choice) (s : Store) : Reply e × Store :=
  let s := s.wait c.elapsed
  match e with
  | .findByUsername =>
    c.reply s (match s.row with
      | none => .ok none
      | some row => row.intoAccount.map some, s)
  | .now => (s.time, s)
  | .verifyPassword password hash =>
    let r := verifyPassword password hash
    (r, { s with guesses := match r with
      | .ok false => s.guesses + 1
      | _ => s.guesses })
  | .recordFailedAttempt now => c.reply s (applyFailure policy now s)
  | .resetFailedAttempts =>
    c.reply s (.ok (), { s with row := s.row.map resetFailedAttempts, guesses := 0 })
  | .updateLastLogin _ => c.reply s (.ok (), s)
  | .audit _ _ => ((), s)

/-- Concurrent calls for one user; a task is a call with this password. -/
def system (verifyPassword : String → String → Except AuthError Bool) (policy : LockoutPolicy) :
    System Call Reply AuthError AuthenticatedUser String Store Choice where
  body := authenticatePassword
  exec := exec verifyPassword policy
  spawned := fun _ => none

abbrev AuthEvent := Event Call Reply AuthError AuthenticatedUser String
abbrev AuthWorld := World Call Reply AuthError AuthenticatedUser String Store
abbrev AuthState := Config Call Reply AuthError AuthenticatedUser String Store

end Password

end Ostrich.Common
