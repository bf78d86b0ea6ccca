import Ostrich.Audit.Repository

/-!
# The audit sink

`record` writes an event at the end of the chain: it takes the chain lock, links the event to the
head and moves its timestamp behind it (`applyChainTimestamp`), hashes it, signs the hash if a key
is configured, and commits.  `sink` is the system of any number of `record` calls that interleave at
these steps; each of them can fail or time out.

`verifySignedChain` checks the chain and then the signature of every row that has one.
-/

namespace Ostrich.Audit

open Interleave

inductive Error where
  | Database (e : DbError)
  | Timeout (what : String)
  | Signing (message : String)
  /-- The time of the record ran past the last time that there is. -/
  | Panic
  deriving DecidableEq, Repr

/-! ### The timestamp in the chain -/

/-- Details key of the original time of a record whose timestamp was moved. -/
def occurredAtDetail : String := "occurred_at"

/-- Details key that receives an `occurred_at` of the caller. -/
def callerOccurredAtDetail : String := "caller_occurred_at"

/-- The timestamp of a record that is appended after `head`; `none` if the addition panics. -/
def chainTimestamp (timestamp : DateTime) (head : Option DateTime) : Option DateTime :=
  match head with
  | some head => if timestamp ≤ head then head.addMicro else some timestamp
  | none => some timestamp

/-- An `occurred_at` that the caller set is moved to its own key, unless it is the value that the
sink writes. -/
def moveCallerDetail (details : Option Json) (occurredAt : Option String) : Option Json :=
  match details with
  | some (.object members) =>
    match Members.remove occurredAtDetail members with
    | none => details
    | some (caller, members) =>
      let same := match caller with
        | .string s => decide (occurredAt = some s)
        | _ => false
      if same then some (.object members)
      else some (.object (Members.insert callerOccurredAtDetail caller members))
  | _ => details

/-- Add the original time to the details. -/
def addOccurredAt (details : Option Json) (occurredAt : String) : Json :=
  match details with
  | some (.object members) => .object (Members.insert occurredAtDetail (.string occurredAt) members)
  | none => .object [(occurredAtDetail, .string occurredAt)]
  | some other =>
    .object (Members.insert occurredAtDetail (.string occurredAt) [("details", other)])

/-- Set the timestamp of the event and keep the original one in its details. -/
def applyChainTimestamp (event : AuditEvent) (head : Option DateTime) : Option AuditEvent :=
  (chainTimestamp event.timestamp head).map fun timestamp =>
    let occurredAt :=
      if timestamp ≠ event.timestamp then some event.timestamp.toRfc3339Micros else none
    let details := moveCallerDetail event.details occurredAt
    match occurredAt with
    | none => { event with timestamp, details }
    | some text => { event with timestamp, details := some (addOccurredAt details text) }

/-! ### Recording -/

/-- The steps of a `record` call that other calls can come between. -/
inductive Call where
  | beginAppend
  | sign (hash : List UInt8)
  | commit (tx : AuditAppendTx) (row : Row)

/-- How a commit ended.  After a timeout the row may or may not be there, which the caller does not
learn. -/
inductive CommitReply where
  | ok
  | error (e : DbError)
  | timeout (applied : Bool)

/-- Replies to calls; `none` is a timeout. -/
abbrev Reply : Call → Type
  | .beginAppend => Option (Except DbError AuditAppendTx)
  | .sign _ => Option (Except String (List UInt8))
  | .commit _ _ => CommitReply

/-- The row is in the table. -/
def CommitReply.applied : CommitReply → Bool
  | .ok => true
  | .error _ => false
  | .timeout applied => applied

abbrev AuditM := Prog Call Reply Error

/-- Make a call. -/
def await (e : Call) : AuditM (Reply e) := Prog.perform e

/-- The message of a commit that timed out. -/
def commitTimeout : Error := .Timeout "committing the audit record"

/-- Sign the hash of the event, if there is a signer with this key label. -/
def signEvent (signer : Option String) (event : AuditEvent) : AuditM AuditEvent :=
  match signer with
  | none => return event
  | some keyLabel => do
    match ← await (.sign event.eventHash) with
    | some (.ok signature) =>
      return { event with signature := some signature, signingKeyId := some keyLabel }
    | some (.error message) => .fail (.Signing message)
    | none => .fail (.Timeout "signing the audit record")

/-- Store the record and commit. -/
def commitEvent (tx : AuditAppendTx) (event : AuditEvent) : AuditM Unit := do
  match ← await (.commit tx (AuditEvent.toDbModel event)) with
  | .ok => return ()
  | .error e => .fail (.Database e)
  | .timeout _ => .fail commitTimeout

/-- `DatabaseAuditSink::record`. -/
def record (env : Hashing) (signer : Option String) (event : AuditEvent) : AuditM Unit := do
  let event := { event with timestamp := event.timestamp.truncMicros }
  match ← await .beginAppend with
  | none => .fail (.Timeout "waiting for the audit chain lock")
  | some (.error e) => .fail (.Database e)
  | some (.ok tx) =>
    let event := { event with previousHash := tx.previousHash }
    match applyChainTimestamp event tx.previousTimestamp with
    | none => .fail .Panic
    | some event =>
      let event := { event with eventHash := env.computeHash event }
      let event ← signEvent signer event
      commitEvent tx event

/-! ### The system -/

/-- What a call does not control: failures and timeouts, whether the holder of the lock is gone,
which of several last rows is read, and the signature. -/
structure Choice where
  fault : Option DbError := none
  timeout : Bool := false
  holderGone : Bool := false
  pick : ℕ := 0
  applied : Bool := true
  signature : Except String (List UInt8) := .ok []

/-- A call, in the database. -/
def exec (env : Hashing) : (e : Call) → Choice → Store → Reply e × Store
  | .beginAppend, c, s =>
    if c.timeout then (none, s)
    else match c.fault with
      | some e => (some (.error e), s)
      | none =>
        let (reply, s) := s.beginAppend c.holderGone c.pick
        (some reply, s)
  | .sign _, c, s => if c.timeout then (none, s) else (some c.signature, s)
  | .commit tx row, c, s =>
    match tx.check row with
    | .error e => (.error e, s)
    | .ok () =>
      match c.fault with
      | some e => (.error e, s)
      | none =>
        match s.insert env tx.session row with
        | none => if c.timeout then (.timeout false, s) else (.error (.Query "insert failed"), s)
        | some s' =>
          if c.timeout then if c.applied then (.timeout true, s') else (.timeout false, s)
          else (.ok, s')

/-- Any number of `record` calls. -/
def sink (env : Hashing) (signer : Option String) :
    System Call Reply Error Unit AuditEvent Store Choice where
  body := record env signer
  exec := exec env
  spawned _ := none

abbrev AuditWorld := World Call Reply Error Unit AuditEvent Store

abbrev AuditConfig := Config Call Reply Error Unit AuditEvent Store

abbrev AuditLogEvent := Event Call Reply Error Unit AuditEvent

/-! ### Verification of signatures -/

/-- The loop over the rows of `verify_signed_chain`: a row without a signature is passed over.
`verify` is `verify_with_spki` for the signer's key. -/
def verifySignatures (verify : List UInt8 → List UInt8 → Except String Bool) :
    List Row → Except Error Bool
  | [] => .ok true
  | row :: rows =>
    match row.signature with
    | none => verifySignatures verify rows
    | some signature =>
      match verify row.eventHash signature with
      | .error e => .error (.Signing ("Audit signature verify error: " ++ e))
      | .ok false => .ok false
      | .ok true => verifySignatures verify rows

/-- `verify_signed_chain`, on the rows in the order of their timestamps. -/
def verifySignedChain (env : Hashing) (verify : List UInt8 → List UInt8 → Except String Bool)
    (rows : List Row) : Except Error Bool :=
  if env.verifyChain rows then verifySignatures verify rows else .ok false

end Ostrich.Audit
