import Ostrich.Common.SessionStore

/-!
# The cap on concurrent sessions (`ostrich-common/src/auth/session.rs`,
`ostrich-db/src/repository/session.rs`)

Sessions are created next to the other operations of the session manager (`Session.system`).  The
map in memory counts the active sessions of the user and inserts the new one under one lock.  The
database counts and inserts in two statements of a transaction, under an advisory lock that keeps
other creations of the user out, but no other statement.
-/

namespace Ostrich.Common.SessionCap

open Interleave SessionStore

/-! ### Calls -/

inductive Call where
  /-- A call of the other operations. -/
  | manager (e : Session.Call)
  /-- `generate_token`. -/
  | generateToken
  /-- `Uuid::new_v4`. -/
  | newUuid
  /-- Count and insert, in memory. -/
  | create (session : Session) (maxConcurrent : ℕ)
  /-- Take the lock of the user and count. -/
  | countActive (userId : String)
  /-- Insert and commit. -/
  | insert (session : Session)

abbrev Reply : Call → Type
  | .manager e => Session.Reply e
  | .generateToken => String
  | .newUuid => Uuid
  | .create .. | .insert _ => Except SessionError Unit
  | .countActive _ => Except SessionError ℕ

abbrev SessionM := Prog Call Reply SessionError

/-- Make a call. -/
def await (e : Call) : SessionM (Reply e) := Prog.perform e

/-- An operation of the session manager. -/
def manage {α : Type} : Session.SessionM α → SessionM α
  | .ret a => .ret a
  | .fail e => .fail e
  | .call e k => .call (.manager e) fun r => manage (k r)

/-! ### Creating sessions -/

variable (config : SessionConfig)

/-- Create a new session; `none` where the sum panics. -/
def new (userId : String) (ipAddress userAgent : Option String) : SessionM (Option Session) := do
  let now : DateTime ← await (.manager .now)
  let token : String ← await .generateToken
  let id : Uuid ← await .newUuid
  return (now.addDuration config.absoluteTimeoutSecs).map fun expiresAt =>
    { id, token, userId, status := .Active, ipAddress, userAgent, createdAt := now
      lastActivity := now, expiresAt, metadata := none }

/-- `SessionStore::create`. -/
def create (kind : StoreKind) (session : Session) (maxConcurrent : ℕ) : SessionM Unit :=
  match kind with
  | .inMemory => do
    Prog.ofExcept (← await (.create session maxConcurrent))
  | .database => do
    let active ← Prog.ofExcept (← await (.countActive session.userId))
    if maxConcurrent ≤ active then .fail .MaxConcurrentSessionsExceeded
    else Prog.ofExcept (← await (.insert session))

/-- Create a new session for a user. -/
def createSession (kind : StoreKind) (userId : String) (ipAddress userAgent : Option String) :
    SessionM Session := do
  if config.absoluteTimeoutSecs ≤ 0 then
    .fail (.InvalidState "absolute_timeout_secs must be positive")
  else
    match ← new config userId ipAddress userAgent with
    | none => .fail .Panic
    | some session => do
      create kind session config.maxConcurrentSessions
      return session

/-! ### The system -/

inductive Task where
  | manager (t : Session.Task)
  | createSession (userId : String) (ipAddress userAgent : Option String)

/-- The programs of the tasks. -/
def body (kind : StoreKind) : Task → SessionM Session.Result
  | .manager t => manage (Session.body config t)
  | .createSession userId ipAddress userAgent =>
    .session <$> createSession config kind userId ipAddress userAgent

/-- What the tasks do not control, and the random values. -/
structure Choice where
  manager : Session.Choice
  token : String
  uuid : Uuid

/-- The result of a change of the store, or its failure. -/
def Choice.answer (c : Choice) (s : Sessions) (r : Except SessionError Unit × Sessions) :
    Except SessionError Unit × Sessions :=
  match c.manager.fault with
  | none => r
  | some (e, applied) => (.error e, if applied then r.2 else s)

/-- Answer a call. -/
def exec (db : Columns) (kind : StoreKind) (e : Call) (c : Choice) (s : Sessions) :
    Reply e × Sessions :=
  match e with
  | .manager e => Session.exec kind e c.manager s
  | .generateToken => (c.token, s)
  | .newUuid => (c.uuid, s)
  | .create session maxConcurrent => c.answer s (createInMemory session maxConcurrent s)
  | .countActive userId => c.manager.reply s (active userId s, s)
  | .insert session => c.answer s (insertSession db session s)

/-- The session manager over a store. -/
def system (db : Columns) (kind : StoreKind) :
    System Call Reply SessionError Session.Result Task Sessions Choice where
  body := body config kind
  exec := exec db kind
  spawned := fun _ => none

abbrev CapEvent := Event Call Reply SessionError Session.Result Task
abbrev CapWorld := World Call Reply SessionError Session.Result Task Sessions
abbrev CapState := Config Call Reply SessionError Session.Result Task Sessions

end Ostrich.Common.SessionCap
