import Ostrich.Lib.Interleave
import Ostrich.Lib.Json
import Ostrich.Lib.Table
import Ostrich.Lib.Time
import Ostrich.Lib.Uuid
import Mathlib.Data.List.Permutation

/-!
# Sessions (`ostrich-common/src/auth/session.rs`, `ostrich-db/src/repository/session.rs`)

The session manager reads a whole session from its store, changes it and writes it back, in
separate calls.  There are two stores: the map in memory and the table of the database.  Both keep
at most one session for an id (`Sessions`), and both refuse to replace a terminated session by one
that is not; they differ in what an update does to a session that they do not have.
-/

namespace Ostrich.Common

open Interleave Table

/-! ### Sessions -/

inductive SessionStatus where
  | Active
  | Locked
  | Expired
  | Terminated
  | AdminTerminated
  deriving DecidableEq, Repr

/-- Terminated by the user or by an administrator. -/
def SessionStatus.terminal : SessionStatus → Bool
  | .Terminated | .AdminTerminated => true
  | _ => false

structure SessionConfig where
  inactivityTimeoutSecs : ℤ
  absoluteTimeoutSecs : ℤ
  lockOnInactivity : Bool
  maxConcurrentSessions : ℕ

structure Session where
  id : Uuid
  token : String
  userId : String
  status : SessionStatus
  ipAddress : Option String
  userAgent : Option String
  createdAt : DateTime
  lastActivity : DateTime
  expiresAt : DateTime
  metadata : Option Json

namespace Session

def isExpired (now : DateTime) (s : Session) : Bool := s.expiresAt < now

def touch (now : DateTime) (s : Session) : Session := { s with lastActivity := now }

def lock (s : Session) : Session := { s with status := .Locked }

theorem id_lock (s : Session) : s.lock.id = s.id := rfl

def unlock (now : DateTime) (s : Session) : Session :=
  if s.status = .Locked then { s with status := .Active }.touch now else s

def terminate (s : Session) : Session := { s with status := .Terminated }

def adminTerminate (s : Session) : Session := { s with status := .AdminTerminated }

/-- Time since last activity in seconds. -/
def idleTime (now : DateTime) (s : Session) : ℤ := now.secondsSince s.lastActivity

end Session

inductive SessionError where
  | SessionNotFound
  | SessionExpired
  | SessionLocked
  | SessionTerminated
  | InvalidState (text : String)
  | MaxConcurrentSessionsExceeded
  | LockPoisoned
  | Backend (text : String)
  /-- The call panicked. -/
  | Panic
  deriving DecidableEq, Repr

/-! ### Stores -/

inductive StoreKind where
  | inMemory
  | database
  deriving DecidableEq, Repr

/-- The sessions of a store: at most one for an id. -/
abbrev Sessions := Keyed Session.id

namespace Sessions

/-- One of the sessions with the token. -/
def getByToken (s : Sessions) (pick : ℕ) (token : String) : Option Session :=
  let found := s.rows.filter (·.token = token)
  found[pick % found.length]?

def getById (s : Sessions) (id : Uuid) : Option Session := s.get id

/-- The columns that an update writes. -/
def written (new row : Session) : Session :=
  { row with
    status := new.status
    lastActivity := .ofMicros new.lastActivity.toMicros
    expiresAt := .ofMicros new.expiresAt.toMicros
    ipAddress := new.ipAddress
    userAgent := new.userAgent
    metadata := new.metadata }

/-- Persist mutable session fields.  A terminal status is never replaced by a non-terminal one. -/
def update (s : Sessions) (kind : StoreKind) (session : Session) : Sessions :=
  match kind with
  | .inMemory =>
    match getById s session.id with
    | some existing =>
      if existing.status.terminal && !session.status.terminal then s else s.put session
    | none => s.put session
  | .database =>
    s.modify (fun row => row.id = session.id && (!row.status.terminal || session.status.terminal))
      (written session) (fun _ => rfl)

/-- The active or locked sessions of a user, in some order. -/
def listActiveForUser (s : Sessions) (pick : ℕ) (userId : String) : List Session :=
  let found := s.rows.filter fun row =>
    row.userId = userId && (row.status = .Active || row.status = .Locked)
  found.permutations[pick]?.getD found

/-- Reap expired and terminated sessions.  The map in memory reads the clock for each session. -/
def deleteExpired (s : Sessions) (kind : StoreKind) (now : DateTime) (nowFor : Uuid → DateTime) :
    Sessions :=
  match kind with
  | .inMemory => s.retain fun row => !row.isExpired (nowFor row.id) && !row.status.terminal
  | .database => s.retain fun row =>
      !row.isExpired (.ofMicros now.toMicros) && !row.status.terminal

/-- Lock the active sessions that were idle since `idleBefore`. -/
def lockIdle (s : Sessions) (kind : StoreKind) (idleBefore : DateTime) : Sessions :=
  let before := match kind with
    | .inMemory => idleBefore
    | .database => .ofMicros idleBefore.toMicros
  s.modify (fun row => row.status = .Active && decide (row.lastActivity < before)) Session.lock
    Session.id_lock

end Sessions

/-! ### Calls -/

inductive SessionAuditKind where
  | TerminatedByUser
  | TerminatedByAdmin
  deriving DecidableEq, Repr

structure SessionAuditEvent where
  kind : SessionAuditKind
  userId : String
  sessionId : Uuid
  ipAddress : Option String
  actor : Option String
  deriving DecidableEq, Repr

namespace Session

inductive Call where
  | getByToken (token : String)
  | getById (id : Uuid)
  | update (session : Session)
  | listActiveForUser (userId : String)
  | deleteExpired
  | lockIdle (idleBefore : DateTime)
  /-- `Utc::now`. -/
  | now
  | audit (event : SessionAuditEvent)

abbrev Reply : Call → Type
  | .getByToken _ | .getById _ => Except SessionError (Option Session)
  | .update _ => Except SessionError Unit
  | .listActiveForUser _ => Except SessionError (List Session)
  | .deleteExpired | .lockIdle _ => Except SessionError ℕ
  | .now => DateTime
  | .audit _ => Unit

abbrev SessionM := Prog Call Reply SessionError

/-- Make a call. -/
def await (e : Call) : SessionM (Reply e) := Prog.perform e

/-- Make a call of the store, `?` on its result. -/
def update (session : Session) : SessionM Unit := do
  Prog.ofExcept (← await (.update session))

/-! ### The manager -/

/-- `ACTIVITY_PERSIST_INTERVAL_SECS`. -/
def activityPersistIntervalSecs : ℤ := 60

variable (config : SessionConfig)

/-- The session that was found. -/
def found (reply : Except SessionError (Option Session)) : SessionM Session :=
  match reply with
  | .error e => .fail e
  | .ok none => .fail .SessionNotFound
  | .ok (some session) => return session

/-- Apply inactivity policy to an active session. -/
def evaluateActive (session : Session) : SessionM Session := do
  match (← await .now).addDuration (-config.inactivityTimeoutSecs) with
  | none => .fail .Panic
  | some cutoff =>
    if session.lastActivity < cutoff then
      if config.lockOnInactivity then
        update session.lock
        .fail .SessionLocked
      else
        update { session with status := .Expired }
        .fail .SessionExpired
    else
      -- the activity timestamp is only written once it has advanced enough to matter
      let persistAfter := max
        (min activityPersistIntervalSecs (config.inactivityTimeoutSecs.tdiv 2)) 1
      let now ← await .now
      if persistAfter ≤ session.idleTime now then
        let now ← await .now
        update (session.touch now)
        return session.touch now
      else return session

/-- Apply expiry, inactivity and status policy to a fetched session. -/
def evaluate (session : Session) : SessionM Session := do
  let now ← await .now
  if session.isExpired now then
    if session.status ≠ .Expired then
      update { session with status := .Expired }
    .fail .SessionExpired
  else
    match session.status with
    | .Active => evaluateActive config session
    | .Locked => .fail .SessionLocked
    | .Expired => .fail .SessionExpired
    | .Terminated | .AdminTerminated => .fail .SessionTerminated

/-- Validate a session by token. -/
def validateSession (token : String) : SessionM Session := do
  let session ← found (← await (.getByToken token))
  evaluate config session

/-- Validate a session by ID. -/
def validateSessionById (id : Uuid) : SessionM Session := do
  let session ← found (← await (.getById id))
  evaluate config session

/-- Unlock a locked session (after re-authentication). -/
def unlockSession (id : Uuid) : SessionM Unit := do
  let session ← found (← await (.getById id))
  if session.status ≠ .Locked then .fail (.InvalidState "Session is not locked")
  else
    let now ← await .now
    update (session.unlock now)

/-- Terminate a session (user-initiated). -/
def terminateSession (id : Uuid) : SessionM Unit := do
  let session ← found (← await (.getById id))
  update session.terminate
  await (.audit { kind := .TerminatedByUser, userId := session.userId, sessionId := session.id,
                  ipAddress := session.ipAddress, actor := none })

/-- Admin terminate a session. -/
def adminTerminateSession (id : Uuid) (adminId : String) : SessionM Unit := do
  let session ← found (← await (.getById id))
  update session.adminTerminate
  await (.audit { kind := .TerminatedByAdmin, userId := session.userId, sessionId := session.id,
                  ipAddress := session.ipAddress, actor := some adminId })

/-- Terminate the listed sessions, one after the other. -/
def terminateAll (adminId : Option String) : List Session → ℕ → SessionM ℕ
  | [], terminated => return terminated
  | session :: rest, terminated =>
    if session.status = .Active ∨ session.status = .Locked then do
      update (if adminId.isSome then session.adminTerminate else session.terminate)
      terminateAll adminId rest (terminated + 1)
    else terminateAll adminId rest terminated

/-- Terminate all sessions for a user. -/
def terminateUserSessions (userId : String) (adminId : Option String) : SessionM ℕ := do
  let sessions ← Prog.ofExcept (← await (.listActiveForUser userId))
  terminateAll adminId sessions 0

/-- Lock the sessions that are idle past the inactivity timeout; a failure is only logged. -/
def lockIdleSessions : SessionM Unit :=
  if config.lockOnInactivity then do
    match (← await .now).addDuration (-config.inactivityTimeoutSecs) with
    | none => .fail .Panic
    | some idleBefore =>
      let _ ← await (.lockIdle idleBefore)
      return ()
  else return ()

/-- Cleanup expired sessions. -/
def cleanupExpired : SessionM ℕ := do
  lockIdleSessions config
  Prog.ofExcept (← await .deleteExpired)

/-! ### The system -/

inductive Task where
  | validateSession (token : String)
  | validateSessionById (id : Uuid)
  | unlockSession (id : Uuid)
  | terminateSession (id : Uuid)
  | adminTerminateSession (id : Uuid) (adminId : String)
  | terminateUserSessions (userId : String) (adminId : Option String)
  | cleanupExpired

/-- What a task returns: only validation returns a session. -/
inductive Result where
  | session (s : Session)
  | done
  | count (n : ℕ)

/-- The programs of the tasks. -/
def body : Task → SessionM Result
  | .validateSession token => .session <$> validateSession config token
  | .validateSessionById id => .session <$> validateSessionById config id
  | .unlockSession id => (fun _ => .done) <$> unlockSession id
  | .terminateSession id => (fun _ => .done) <$> terminateSession id
  | .adminTerminateSession id adminId => (fun _ => .done) <$> adminTerminateSession id adminId
  | .terminateUserSessions userId adminId => .count <$> terminateUserSessions userId adminId
  | .cleanupExpired => .count <$> cleanupExpired config

/-- What the tasks do not control: whether the store fails, and then whether it still did what it
was asked to, the clock, and which of several sessions is taken first. -/
structure Choice where
  fault : Option (SessionError × Bool)
  now : DateTime
  nowFor : Uuid → DateTime
  pick : ℕ

/-- The result of a store operation, or its failure. -/
def Choice.reply {α : Type} (c : Choice) (s : Sessions) (r : α × Sessions) :
    Except SessionError α × Sessions :=
  match c.fault with
  | none => (.ok r.1, r.2)
  | some (e, applied) => (.error e, if applied then r.2 else s)

/-- Answer a call. -/
def exec (kind : StoreKind) (e : Call) (c : Choice) (s : Sessions) : Reply e × Sessions :=
  match e with
  | .getByToken token => c.reply s (Sessions.getByToken s c.pick token, s)
  | .getById id => c.reply s (Sessions.getById s id, s)
  | .update session => c.reply s ((), Sessions.update s kind session)
  | .listActiveForUser userId => c.reply s (Sessions.listActiveForUser s c.pick userId, s)
  | .deleteExpired =>
    let s' := Sessions.deleteExpired s kind c.now c.nowFor
    c.reply s (s.rows.length - s'.rows.length, s')
  | .lockIdle idleBefore =>
    let s' := Sessions.lockIdle s kind idleBefore
    c.reply s ((s.rows.filter (·.status = .Active)).length
      - (s'.rows.filter (·.status = .Active)).length, s')
  | .now => (c.now, s)
  | .audit _ => ((), s)

/-- The session manager over a store. -/
def system (kind : StoreKind) : System Call Reply SessionError Result Task Sessions Choice where
  body := body config
  exec := exec kind
  spawned := fun _ => none

abbrev SessionEvent := Event Call Reply SessionError Result Task
abbrev SessionWorld := World Call Reply SessionError Result Task Sessions
abbrev SessionState := Config Call Reply SessionError Result Task Sessions

end Session

end Ostrich.Common
