import Ostrich.Common.Password
import Ostrich.Common.SessionStore

/-!
# The password provider (`ostrich-common/src/auth/password.rs`,
`ostrich-db/src/repository/users.rs`)

Sessions and accounts together: the provider creates, validates and ends sessions with the session
manager, and looks the account of a session up by its name; administrators and the lockout change
the status of accounts.
-/

namespace Ostrich.Common

/-- The text of an error. -/
def SessionError.toString : SessionError → String
  | .SessionNotFound => "Session not found"
  | .SessionExpired => "Session expired"
  | .SessionLocked => "Session locked - re-authentication required"
  | .SessionTerminated => "Session terminated"
  | .InvalidState text => "Invalid session state: " ++ text
  | .MaxConcurrentSessionsExceeded => "Maximum concurrent sessions exceeded"
  | .LockPoisoned => "Internal lock error"
  | .Backend text => "Session store backend error: " ++ text
  | .Panic => ""

structure SessionInfo where
  token : String
  user : AuthenticatedUser
  expiresAt : ℤ
  isValid : Bool
  deriving DecidableEq, Repr

namespace Provider

open Interleave Table

/-! ### Calls -/

inductive Call where
  /-- A call of the session manager. -/
  | session (e : Session.Call)
  | generateToken
  | newId
  | create (session : Session) (maxConcurrent : ℕ)
  | findByUsername (username : String)
  | recordFailedAttempt (username : String) (now : DateTime)
  | resetFailedAttempts (username : String)
  | unlockAccount (username : String)
  | setUserStatus (id : Uuid) (status : AccountStatus)
  /-- `AuthAuditKind::AccountUnlocked`. -/
  | auditUnlocked (subject : String)

abbrev Reply : Call → Type
  | .session e => Session.Reply e
  | .generateToken => String
  | .newId => Uuid
  | .create .. => Except SessionError Unit
  | .findByUsername _ => Except AuthError (Option UserAccount)
  | .recordFailedAttempt .. => Except AuthError LockoutOutcome
  | .resetFailedAttempts _ | .unlockAccount _ => Except AuthError Unit
  | .setUserStatus .. => Except AuthError Bool
  | .auditUnlocked _ => Unit

abbrev ProviderM := Prog Call Reply AuthError

/-- Make a call. -/
def await (e : Call) : ProviderM (Reply e) := Prog.perform e

/-- Run an operation of the session manager. -/
def ofSession {α : Type} : Session.SessionM α → ProviderM (Except SessionError α)
  | .ret a => .ret (.ok a)
  | .fail e => .ret (.error e)
  | .call e k => .call (.session e) fun r => ofSession (k r)

/-! ### Operations -/

section

variable (config : SessionConfig)

/-- A new session. -/
def newSession (userId : String) (now : DateTime) (token : String) (id : Uuid)
    (expiresAt : DateTime) : Session where
  id := id
  token := token
  userId := userId
  status := .Active
  ipAddress := none
  userAgent := none
  createdAt := now
  lastActivity := now
  expiresAt := expiresAt
  metadata := none

/-- `SessionManager::create_session`. -/
def managerCreateSession (userId : String) : ProviderM (Except SessionError Session) :=
  if config.absoluteTimeoutSecs ≤ 0 then
    return .error (.InvalidState "absolute_timeout_secs must be positive")
  else do
    let now : DateTime ← await (.session .now)
    let token : String ← await .generateToken
    let id : Uuid ← await .newId
    match now.addDuration config.absoluteTimeoutSecs with
    | none => return .error .Panic
    | some expiresAt =>
      let session := newSession userId now token id expiresAt
      match ← await (.create session config.maxConcurrentSessions) with
      | .error e => return .error e
      | .ok () => return .ok session

/-- Create a session for an authenticated user. -/
def createSession (user : AuthenticatedUser) : ProviderM SessionInfo := do
  match ← managerCreateSession config user.username with
  | .error .Panic => .fail .Panic
  | .error .MaxConcurrentSessionsExceeded => .fail .SessionLimitReached
  | .error other => .fail (.Internal ("Session creation failed: " ++ other.toString))
  | .ok session =>
    return { token := session.token, user, expiresAt := session.expiresAt.secs, isValid := true }

/-- The session manager accepts the session. -/
def acceptedSession (token : String) : ProviderM Session := do
  match ← ofSession (Session.validateSession config token) with
  | .error .Panic => .fail .Panic
  | .error _ => .fail .InvalidSession
  | .ok session => return session

/-- Validate a session and look its account up. -/
def validateSession (token : String) : ProviderM SessionInfo := do
  let session ← acceptedSession config token
  match ← await (.findByUsername session.userId) with
  | .error e => .fail e
  | .ok none => .fail .UserNotFound
  | .ok (some account) =>
    let user : AuthenticatedUser :=
      { id := account.id, username := account.username, roles := account.roles
        certificateSubject := none }
    return { token, user, expiresAt := session.expiresAt.secs, isValid := true }

/-- Sign out. -/
def invalidateSession (token : String) : ProviderM Unit := do
  let session ← acceptedSession config token
  match ← ofSession (Session.terminateSession session.id) with
  | .error e => .fail (.Internal ("Session termination failed: " ++ e.toString))
  | .ok () => return ()

/-- Sign out everywhere. -/
def terminateAllSessionsForUser (userId : String) : ProviderM ℕ := do
  match ← ofSession (Session.terminateUserSessions userId none) with
  | .error e => .fail (.Internal ("Terminate-all-sessions failed: " ++ e.toString))
  | .ok n => return n

/-- Record a failed attempt; an error is ignored. -/
def recordFailedAttempt (username : String) : ProviderM Unit := do
  let now : DateTime ← await (.session .now)
  match ← await (.recordFailedAttempt username now) with
  | .error .Panic => .fail .Panic
  | _ => return ()

/-- Administrative unlock; an error is ignored. -/
def unlockAccount (username : String) : ProviderM Unit := do
  let _ ← await (.unlockAccount username)
  await (.auditUnlocked username)

/-- `DbUserRepository::set_user_status`. -/
def setUserStatus (id : Uuid) (status : AccountStatus) : ProviderM Bool := do
  Prog.ofExcept (← await (.setUserStatus id status))

/-! ### The system -/

inductive Task where
  | createSession (user : AuthenticatedUser)
  | validateSession (token : String)
  | invalidateSession (token : String)
  | terminateAllSessionsForUser (userId : String)
  | recordFailedAttempt (username : String)
  | resetFailedAttempts (username : String)
  | unlockAccount (username : String)
  | setUserStatus (id : Uuid) (status : AccountStatus)

inductive Result where
  /-- What `validateSession` returns. -/
  | validated (info : SessionInfo)
  | created (info : SessionInfo)
  | done

/-- The programs of the tasks. -/
def body : Task → ProviderM Result
  | .createSession user => .created <$> createSession config user
  | .validateSession token => .validated <$> validateSession config token
  | .invalidateSession token => (fun _ => .done) <$> invalidateSession config token
  | .terminateAllSessionsForUser userId =>
    (fun _ => .done) <$> terminateAllSessionsForUser userId
  | .recordFailedAttempt username => (fun _ => .done) <$> recordFailedAttempt username
  | .resetFailedAttempts username => (fun _ => .done) <$> await (.resetFailedAttempts username)
  | .unlockAccount username => (fun _ => .done) <$> unlockAccount username
  | .setUserStatus id status => (fun _ => .done) <$> setUserStatus id status

end

/-- The accounts and the sessions. -/
structure Store where
  users : Keyed UserRow.username
  sessions : Sessions

/-- What the tasks do not control: the session store, the random values, and whether a statement on
the accounts fails, and then whether it still did what it was asked to. -/
structure Choice where
  session : Session.Choice
  token : String
  id : Uuid
  fault : Option (AuthError × Bool)

/-- The result of a statement on the accounts, or its failure. -/
def Choice.reply {α : Type} (c : Choice) (s : Store)
    (r : Except AuthError α × Keyed UserRow.username) : Except AuthError α × Store :=
  match c.fault with
  | none => (r.1, { s with users := r.2 })
  | some (e, applied) => (.error e, if applied then { s with users := r.2 } else s)

/-- `SessionStore::create`. -/
def createIn (kind : StoreKind) (db : SessionStore.Columns) (session : Session)
    (maxConcurrent : ℕ) (s : Sessions) : Except SessionError Unit × Sessions :=
  match kind with
  | .inMemory => SessionStore.createInMemory session maxConcurrent s
  | .database => SessionStore.createInDatabase db session maxConcurrent s

/-- Administrative unlock: reset the counters and lift a permanent lock. -/
def unlocked (row : UserRow) : UserRow :=
  { Password.resetFailedAttempts row with
    status := if row.status = .Locked then .Active else row.status }

/-- An `UPDATE` of the account of this name. -/
def updateUser (username : String) (f : UserRow → UserRow)
    (hf : ∀ row, (f row).username = row.username) (users : Keyed UserRow.username) :
    Keyed UserRow.username := users.modify (·.username = username) f hf

theorem username_recordFailedAttempt (policy : LockoutPolicy) (now : DateTime) (row : UserRow) :
    (Password.recordFailedAttempt policy now row).2.username = row.username := by
  have hupdate {failed : ℤ} {outcome : LockoutOutcome} {new : UserRow}
      (h : new.username = row.username) :
      (if failed < 0 then ((.error Password.refused, row) : Except AuthError
        LockoutOutcome × UserRow)
        else (.ok outcome, new)).2.username = row.username := by
    split
    · rfl
    · exact h
  unfold Password.recordFailedAttempt
  dsimp only
  by_cases hskip : row.status ≠ .Active ∨ (row.lockedUntil.any (now < ·)) = true
  · rw [if_pos hskip]
  · rw [if_neg hskip]
    generalize (if (row.lockedUntil.any (· ≤ now)) = true then (1 : ℤ)
      else Password.toI32 (row.failedAttempts.val + 1)) = failed
    split
    · split
      · rfl
      · split
        · rfl
        · refine hupdate ?_
          rfl
    · refine hupdate ?_
      rfl

/-- Answer a call. -/
def exec (kind : StoreKind) (db : SessionStore.Columns) (policy : LockoutPolicy) (e : Call)
    (c : Choice) (s : Store) : Reply e × Store :=
  match e with
  | .session e =>
    let r := Session.exec kind e c.session s.sessions
    (r.1, { s with sessions := r.2 })
  | .generateToken => (c.token, s)
  | .newId => (c.id, s)
  | .create session maxConcurrent =>
    let r := createIn kind db session maxConcurrent s.sessions
    match c.session.fault with
    | none => (r.1, { s with sessions := r.2 })
    | some (e, applied) => (.error e, if applied then { s with sessions := r.2 } else s)
  | .findByUsername username =>
    c.reply s (match s.users.get username with
      | none => .ok none
      | some row => row.intoAccount.map some, s.users)
  | .recordFailedAttempt username now =>
    c.reply s (match s.users.get username with
      | none => .ok .default
      | some row => (Password.recordFailedAttempt policy now row).1,
      updateUser username (fun row => (Password.recordFailedAttempt policy now row).2)
        (username_recordFailedAttempt policy now) s.users)
  | .resetFailedAttempts username =>
    c.reply s (.ok (), updateUser username Password.resetFailedAttempts (fun _ => rfl) s.users)
  | .unlockAccount username =>
    c.reply s (.ok (), updateUser username unlocked (fun _ => rfl) s.users)
  | .setUserStatus id status =>
    c.reply s (.ok (s.users.rows.any (·.id = id)),
      s.users.modify (·.id = id) (fun row => { row with status }) (fun _ => rfl))
  | .auditUnlocked _ => ((), s)

/-- Any number of calls of the provider and of the administration. -/
def system (config : SessionConfig) (kind : StoreKind) (db : SessionStore.Columns)
    (policy : LockoutPolicy) : System Call Reply AuthError Result Task Store Choice where
  body := body config
  exec := exec kind db policy
  spawned _ := none

abbrev ProviderEvent := Event Call Reply AuthError Result Task
abbrev ProviderWorld := World Call Reply AuthError Result Task Store
abbrev ProviderState := Config Call Reply AuthError Result Task Store

end Provider

end Ostrich.Common
