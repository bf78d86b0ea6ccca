import Ostrich.Lib.Interleave
import Ostrich.Lib.Time

/-!
# Sessions of the web console (`web-ui/src/server/auth/session.rs`)

The session manager keeps its sessions in a map from tokens.  Each call reads the session, decides
on its copy, and writes the whole copy back or removes the entry: two accesses to the map with
other calls between them.  The clock is read each time the code reads it.
-/

namespace Ostrich.WebUi

open Interleave

/-! ### Sessions -/

structure SessionData where
  id : String
  userSubject : String
  username : Option String
  email : Option String
  roles : List String
  createdAt : DateTime
  lastActivity : DateTime
  expiresAt : DateTime
  locked : Bool
  backendToken : Option String

/-- Check if the session has expired. -/
def SessionData.isExpired (now : DateTime) (session : SessionData) : Bool :=
  session.expiresAt < now

/-- Check if the session should be locked due to inactivity; `none` where the sum panics. -/
def SessionData.shouldLock (inactivityTimeout : ℤ) (now : DateTime) (session : SessionData) :
    Option Bool :=
  (session.lastActivity.addDuration inactivityTimeout).map (· < now)

/-- Update last activity time. -/
def SessionData.touch (now : DateTime) (session : SessionData) : SessionData :=
  { session with lastActivity := now }

/-- The timeouts of a manager, in seconds. -/
structure SessionManager where
  inactivityTimeout : ℤ
  absoluteTimeout : ℤ

/-- 15 minutes of inactivity, 8 hours in all. -/
def SessionManager.default : SessionManager := ⟨900, 28800⟩

/-! ### Calls -/

inductive Call where
  /-- `generate_token`. -/
  | generateToken
  /-- `Uuid::new_v4`. -/
  | newId
  /-- `Utc::now`. -/
  | now
  | insert (token : String) (data : SessionData)
  | get (token : String)
  | update (token : String) (data : SessionData)
  | remove (token : String)
  | purgeExpired

abbrev Reply : Call → Type
  | .generateToken | .newId => String
  | .now => DateTime
  | .insert _ _ | .update _ _ | .purgeExpired => Unit
  | .get _ | .remove _ => Option SessionData

/-- The call panicked. -/
inductive Failure where
  | panic
  deriving DecidableEq, Repr

abbrev SessionM := Prog Call Reply Failure

/-- Make a call. -/
def await (e : Call) : SessionM (Reply e) := Prog.perform e

/-! ### The session manager -/

section

variable (manager : SessionManager)

/-- Store a new session that expires then; the panic is that of the sum. -/
def storeSession (token : String) (session : DateTime → SessionData) :
    Option DateTime → SessionM (String × SessionData)
  | none => .fail .panic
  | some expiresAt => do
    await (.insert token (session expiresAt))
    await .purgeExpired
    return (token, session expiresAt)

/-- Create a new session. -/
def createSessionWithToken (userSubject : String) (username email : Option String)
    (roles : List String) (backendToken : Option String) : SessionM (String × SessionData) := do
  let token : String ← await .generateToken
  let now : DateTime ← await .now
  let id : String ← await .newId
  storeSession token
    (fun expiresAt =>
      { id, userSubject, username, email, roles, createdAt := now, lastActivity := now, expiresAt
        locked := false, backendToken })
    (now.addDuration manager.absoluteTimeout)

/-- Active: refresh last activity. -/
def refresh (token : String) (session : SessionData) : SessionM (Option SessionData) := do
  let now : DateTime ← await .now
  let session := session.touch now
  await (.update token session)
  return some session

/-- Inactivity lock: flag and persist, then return the locked session. -/
def lockOrRefresh (token : String) (session : SessionData) :
    Option Bool → SessionM (Option SessionData)
  | none => .fail .panic
  | some shouldLock =>
    if shouldLock && !session.locked then do
      let session := { session with locked := true }
      await (.update token session)
      return some session
    else refresh token session

/-- What `validate_session` does with a session that has not expired. -/
def checkActivity (token : String) (session : SessionData) : SessionM (Option SessionData) := do
  let now : DateTime ← await .now
  lockOrRefresh token session (session.shouldLock manager.inactivityTimeout now)

/-- Validate a session token and return session data. -/
def validateSession (token : String) : SessionM (Option SessionData) := do
  let found : Option SessionData ← await (.get token)
  match found with
  | none => return none
  | some session => do
    let now : DateTime ← await .now
    if session.isExpired now then do
      let _ ← await (.remove token)
      return none
    else checkActivity manager token session

/-- Invalidate a session. -/
def invalidateSession (token : String) : SessionM Bool := do
  let removed : Option SessionData ← await (.remove token)
  return removed.isSome

/-- Unlock a session after re-authentication. -/
def unlockSession (token : String) : SessionM (Option SessionData) := do
  let found : Option SessionData ← await (.get token)
  match found with
  | none => return none
  | some session => do
    let now : DateTime ← await .now
    if session.isExpired now then do
      let _ ← await (.remove token)
      return none
    else refresh token { session with locked := false }

/-! ### The system -/

inductive Task where
  | createSession (userSubject : String) (username email : Option String) (roles : List String)
      (backendToken : Option String)
  | validateSession (token : String)
  | invalidateSession (token : String)
  | unlockSession (token : String)

inductive Result where
  | created (token : String) (session : SessionData)
  | session (session : Option SessionData)
  | removed (found : Bool)

/-- The programs of the tasks. -/
def body : Task → SessionM Result
  | .createSession userSubject username email roles backendToken =>
    (fun r => .created r.1 r.2) <$>
      createSessionWithToken manager userSubject username email roles backendToken
  | .validateSession token => .session <$> validateSession manager token
  | .invalidateSession token => .removed <$> invalidateSession token
  | .unlockSession token => .session <$> unlockSession token

end

/-- The map, and the clock in nanoseconds. -/
structure Store where
  sessions : String → Option SessionData
  clock : ℤ

/-- What the tasks do not control: the time that a step takes, the random token and the id. -/
structure Choice where
  elapsed : ℕ
  token : String
  id : String

/-- Set the entry of a token. -/
def Store.set (token : String) (entry : Option SessionData) (s : Store) : Store :=
  { s with sessions := fun t => if t = token then entry else s.sessions t }

/-- Answer a call. -/
def exec (e : Call) (c : Choice) (s : Store) : Reply e × Store :=
  let s := { s with clock := s.clock + c.elapsed }
  match e with
  | .generateToken => (c.token, s)
  | .newId => (c.id, s)
  | .now => (.ofNanos s.clock, s)
  | .insert token data => ((), s.set token (some data))
  | .get token => (s.sessions token, s)
  -- an entry that was removed is not created again
  | .update token data => ((), if (s.sessions token).isSome then s.set token (some data) else s)
  | .remove token => (s.sessions token, s.set token none)
  | .purgeExpired =>
    ((), { s with
      sessions := fun t => (s.sessions t).filter fun session =>
        !session.isExpired (.ofNanos s.clock) })

/-- Any number of calls over one map. -/
def system (manager : SessionManager) :
    System Call Reply Failure Result Task Store Choice where
  body := body manager
  exec := exec
  spawned := fun _ => none

abbrev SessionEvent := Event Call Reply Failure Result Task
abbrev SessionWorld := World Call Reply Failure Result Task Store
abbrev SessionState := Config Call Reply Failure Result Task Store

end Ostrich.WebUi
