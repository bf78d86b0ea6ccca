import Ostrich.Common.Session
import Ostrich.Lib.Net

/-!
# The two session stores (`ostrich-common/src/auth/session.rs`,
`ostrich-db/src/repository/session.rs`)

The operations of the trait `SessionStore`, once over the map in memory (`memory`) and once as SQL
statements (`database`).  What the column types make of a value is up to the database (`Columns`);
the constraints of the table are those of the migrations, and the users of all sessions exist.
-/

namespace Ostrich.Common.SessionStore

open Net Table

/-! ### Operations -/

inductive Operation where
  | create (session : Session) (maxConcurrent : ℕ)
  | getByToken (token : String)
  | getById (id : Uuid)
  | update (session : Session)
  | listActiveForUser (userId : String)
  | deleteExpired
  | lockIdle (idleBefore : DateTime)

inductive Result where
  | done (r : Except SessionError Unit)
  | session (r : Except SessionError (Option Session))
  | sessions (r : Except SessionError (List Session))
  | count (r : Except SessionError ℕ)

/-- The active sessions of a user. -/
def active (userId : String) (s : Sessions) : ℕ :=
  s.rows.countP fun row => row.userId = userId && row.status = .Active

/-! ### The map in memory -/

/-- Count and insert, under one lock. -/
def createInMemory (session : Session) (maxConcurrent : ℕ) (s : Sessions) :
    Except SessionError Unit × Sessions :=
  if maxConcurrent ≤ active session.userId s then (.error .MaxConcurrentSessionsExceeded, s)
  else (.ok (), s.put session)

/-- An operation of `InMemorySessionStore`; `pick` is the order of the map. -/
def memory (op : Operation) (now : DateTime) (pick : ℕ) (s : Sessions) : Result × Sessions :=
  match op with
  | .create session maxConcurrent =>
    let (r, s') := createInMemory session maxConcurrent s
    (.done r, s')
  | .getByToken token => (.session (.ok (Sessions.getByToken s pick token)), s)
  | .getById id => (.session (.ok (Sessions.getById s id)), s)
  | .update session => (.done (.ok ()), Sessions.update s .inMemory session)
  | .listActiveForUser userId => (.sessions (.ok (Sessions.listActiveForUser s pick userId)), s)
  | .deleteExpired =>
    let s' := Sessions.deleteExpired s .inMemory now fun _ => now
    (.count (.ok (s.rows.length - s'.rows.length)), s')
  | .lockIdle idleBefore =>
    let idle (row : Session) : Bool :=
      row.status = .Active && decide (row.lastActivity < idleBefore)
    (.count (.ok (s.rows.countP idle)), Sessions.lockIdle s .inMemory idleBefore)

/-! ### The table -/

/-- What the database makes of the values of a parameter or a column; `none` if it refuses them. -/
structure Columns where
  text : String → Option String
  varchar : ℕ → String → Option String
  timestamptz : DateTime → Option DateTime
  jsonb : Json → Option Json

/-- A column that may be null. -/
def nullable {α : Type} (f : α → Option α) : Option α → Option (Option α)
  | none => some none
  | some a => (f a).map some

/-- Canonicalize a client IP; a value that does not parse is dropped. -/
def normalizeIp (ip : Option String) : Option String :=
  ip.bind fun text => (parseIpAddr text).map fmtIpAddr

/-- The error of a statement. -/
def refused : SessionError := .Backend "the statement failed"

variable (db : Columns)

/-- The row of a new session. -/
def rowOf (session : Session) : Option Session := do
  let token ← db.varchar 255 session.token
  let ipAddress ← nullable (db.varchar 45) (normalizeIp session.ipAddress)
  let userAgent ← nullable db.text session.userAgent
  let createdAt ← db.timestamptz session.createdAt
  let lastActivity ← db.timestamptz session.lastActivity
  let expiresAt ← db.timestamptz session.expiresAt
  let metadata ← nullable db.jsonb session.metadata
  return { session with token, ipAddress, userAgent, createdAt, lastActivity, expiresAt, metadata }

/-- `INSERT INTO sessions`: the keys are unique and a session expires after it was created. -/
def insertSession (session : Session) (s : Sessions) : Except SessionError Unit × Sessions :=
  match rowOf db session with
  | none => (.error refused, s)
  | some row =>
    if s.rows.any (·.token = row.token) then (.error refused, s)
    else if row.expiresAt ≤ row.createdAt then (.error refused, s)
    else match s.insert? row with
      | none => (.error refused, s)
      | some s' => (.ok (), s')

/-- Count and insert, in one transaction. -/
def createInDatabase (session : Session) (maxConcurrent : ℕ) (s : Sessions) :
    Except SessionError Unit × Sessions :=
  if maxConcurrent ≤ active session.userId s then (.error .MaxConcurrentSessionsExceeded, s)
  else insertSession db session s

/-- `UPDATE sessions`: the values are bound first; the constraints are checked for a row that
changes. -/
def updateSession (session : Session) (s : Sessions) : Except SessionError Unit × Sessions :=
  let bound : Option Session := do
    let ipAddress ← nullable db.text session.ipAddress
    let userAgent ← nullable db.text session.userAgent
    let lastActivity ← db.timestamptz session.lastActivity
    let expiresAt ← db.timestamptz session.expiresAt
    let metadata ← nullable db.jsonb session.metadata
    return { session with ipAddress, userAgent, lastActivity, expiresAt, metadata }
  match bound with
  | none => (.error refused, s)
  | some new =>
    let changes (row : Session) : Bool :=
      row.id = new.id && (!row.status.terminal || new.status.terminal)
    match nullable (db.varchar 45) new.ipAddress with
    | none => (if s.rows.any changes then .error refused else .ok (), s)
    | some ipAddress =>
      if s.rows.any fun row => changes row && decide (new.expiresAt ≤ row.createdAt) then
        (.error refused, s)
      else
        let write (row : Session) : Session :=
          { row with
            status := new.status
            lastActivity := new.lastActivity
            expiresAt := new.expiresAt
            ipAddress
            userAgent := new.userAgent
            metadata := new.metadata }
        (.ok (), s.modify changes write fun _ => rfl)

/-- An operation of `DbSessionStore`. -/
def database (op : Operation) (now : DateTime) (s : Sessions) : Result × Sessions :=
  match op with
  | .create session maxConcurrent =>
    let (r, s') := createInDatabase db session maxConcurrent s
    (.done r, s')
  | .getByToken token =>
    match db.text token with
    | none => (.session (.error refused), s)
    | some token => (.session (.ok (s.rows.find? (·.token = token))), s)
  | .getById id => (.session (.ok (Sessions.getById s id)), s)
  | .update session =>
    let (r, s') := updateSession db session s
    (.done r, s')
  | .listActiveForUser userId =>
    match db.text userId with
    | none => (.sessions (.error refused), s)
    | some userId => (.sessions (.ok (s.rows.filter fun row =>
        row.userId = userId && (row.status = .Active || row.status = .Locked))), s)
  | .deleteExpired =>
    -- `NOW()` has the resolution of the column type
    match db.timestamptz now with
    | none => (.count (.error refused), s)
    | some now =>
      let s' := s.retain fun row => !row.isExpired now && !row.status.terminal
      (.count (.ok (s.rows.length - s'.rows.length)), s')
  | .lockIdle idleBefore =>
    match db.timestamptz idleBefore with
    | none => (.count (.error refused), s)
    | some idleBefore =>
      let idle (row : Session) : Bool :=
        row.status = .Active && decide (row.lastActivity < idleBefore)
      (.count (.ok (s.rows.countP idle)), s.modify idle Session.lock Session.id_lock)

/-! ### Runs -/

/-- An operation, the clock, and the order of the map. -/
structure Step where
  op : Operation
  now : DateTime
  pick : ℕ

def runMemory : List Step → Sessions → List Result
  | [], _ => []
  | step :: rest, s =>
    let (r, s') := memory step.op step.now step.pick s
    r :: runMemory rest s'

def runDatabase : List Step → Sessions → List Result
  | [], _ => []
  | step :: rest, s =>
    let (r, s') := database db step.op step.now s
    r :: runDatabase rest s'

end Ostrich.Common.SessionStore
