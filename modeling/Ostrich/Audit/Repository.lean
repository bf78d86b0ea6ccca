import Ostrich.Audit.Event
import Ostrich.Lib.Interleave

/-!
# The audit repository

The table `audit_events` and the operations on it.  A column keeps what its type can hold: a
`VARCHAR(n)` refuses a longer text, unless only blanks are over, which it drops; no text has the
character zero; a `JSONB` keeps numbers as decimals; a `TIMESTAMPTZ` keeps microseconds
(`Row.stored`).

An append takes the advisory lock, reads the head of the chain and holds the lock until it commits.
The session that holds it can be gone at any time (rolled back by its client, or ended by the server
after `idle_in_transaction_session_timeout`): the lock is free then, and a later commit of that
session fails.
-/

namespace Ostrich.Audit

open Interleave

/-! ### Columns -/

/-- A text in a `VARCHAR(n)` column. -/
def varchar (n : ℕ) (text : String) : Option String :=
  let chars := text.toList
  if '\x00' ∈ chars then none
  else if chars.length ≤ n then some text
  else if (chars.drop n).all (· = ' ') then some (String.ofList (chars.take n))
  else none

/-- A text in a `TEXT` column. -/
def textColumn (text : String) : Option String :=
  if '\x00' ∈ text.toList then none else some text

/-- A column without `NOT NULL`. -/
def nullable {α : Type} (column : α → Option α) : Option α → Option (Option α)
  | none => some none
  | some a => (column a).map some

mutual

/-- A value in a `JSONB` column. -/
def jsonb (number : Number → Number) : Json → Option Json
  | .null => some .null
  | .bool b => some (.bool b)
  | .number n => some (.number (number n))
  | .string s => (textColumn s).map .string
  | .array items => (jsonbItems number items).map .array
  | .object members => (jsonbMembers number members).map .object

def jsonbItems (number : Number → Number) : List Json → Option (List Json)
  | [] => some []
  | item :: items => do
    let item ← jsonb number item
    let items ← jsonbItems number items
    return item :: items

def jsonbMembers (number : Number → Number) : List (String × Json) →
    Option (List (String × Json))
  | [] => some []
  | (key, value) :: members => do
    let key ← textColumn key
    let value ← jsonb number value
    let members ← jsonbMembers number members
    return (key, value) :: members

end

/-- The row that the table keeps for a row that is inserted; `none` if it is refused. -/
def Hashing.stored (env : Hashing) (row : Row) : Option Row := do
  let eventType ← varchar 100 row.eventType
  let actor ← varchar 255 row.actor
  let target ← varchar 255 row.target
  let action ← varchar 100 row.action
  let outcome ← varchar 50 row.outcome
  let details ← nullable (jsonb env.jsonbNumber) row.details
  let ipAddress ← nullable (varchar 45) row.ipAddress
  let userAgent ← nullable textColumn row.userAgent
  let sessionId ← nullable (varchar 255) row.sessionId
  let timestamp ← row.timestamp.timestamptz
  let signingKeyId ← nullable (varchar 255) row.signingKeyId
  return { row with eventType, actor, target, action, outcome, details, ipAddress, userAgent,
                    sessionId, timestamp, signingKeyId }

/-! ### Verification -/

/-- The loop of `verify_chain`. -/
def Hashing.verifyChain.loop (env : Hashing) : List Row → Option (List UInt8) → Bool
  | [], _ => true
  | row :: rows, prevHash =>
    if row.previousHash ≠ prevHash then false
    else if env.computeEventHash row ≠ row.eventHash then false
    else verifyChain.loop env rows (some row.eventHash)

/-- `verify_chain`, on the rows in the order of their timestamps. -/
def Hashing.verifyChain (env : Hashing) (rows : List Row) : Bool :=
  if rows = [] then true else verifyChain.loop env rows none

/-- `rows` are the rows of `table` by `ORDER BY timestamp ASC`; rows with the same timestamp come in
any order. -/
structure Ordered (table rows : List Row) : Prop where
  perm : rows.Perm table
  sorted : rows.Pairwise fun a b => a.timestamp ≤ b.timestamp

/-! ### Appending -/

inductive DbError where
  | Query (message : String)
  | ConstraintViolation (message : String)
  deriving DecidableEq, Repr

/-- An append in progress: its session and the head of the chain that it read. -/
structure AuditAppendTx where
  session : ℕ
  previousHash : Option (List UInt8)
  previousTimestamp : Option DateTime

/-- The table, the session that holds the lock, and the number of sessions. -/
structure Store where
  table : List Row := []
  lock : Option ℕ := none
  sessions : ℕ := 0

/-- The rows that `ORDER BY timestamp DESC LIMIT 1` may give. -/
def lastRows (table : List Row) : List Row :=
  table.filter fun row => table.all fun other => other.timestamp ≤ row.timestamp

/-- `begin_append`: the lock is taken if it is free or its holder is gone. -/
def Store.beginAppend (s : Store) (holderGone : Bool) (pick : ℕ) :
    Except DbError AuditAppendTx × Store :=
  if s.lock ≠ none ∧ ¬holderGone then
    (.error (.Query "canceling statement due to lock timeout"), s)
  else
    let heads := lastRows s.table
    let head := heads[pick % heads.length]?
    (.ok ⟨s.sessions, head.map (·.eventHash), head.map (·.timestamp)⟩,
      { s with lock := some s.sessions, sessions := s.sessions + 1 })

/-- The checks of `AuditAppendTx::commit`. -/
def AuditAppendTx.check (tx : AuditAppendTx) (row : Row) : Except DbError Unit :=
  if row.previousHash ≠ tx.previousHash then
    .error (.ConstraintViolation "audit record does not link to the current chain head")
  else if tx.previousTimestamp.any (row.timestamp ≤ ·) then
    .error (.ConstraintViolation "audit record timestamp is not after the current chain head")
  else .ok ()

/-- The insert and the commit of a session, in the table: `none` if the session is gone, the row is
refused by its columns or its id is taken. -/
def Store.insert (env : Hashing) (s : Store) (session : ℕ) (row : Row) : Option Store :=
  if s.lock ≠ some session then none
  else if s.table.any (·.id = row.id) then none
  else (env.stored row).map fun kept =>
    { s with table := s.table ++ [kept], lock := none }

end Ostrich.Audit
