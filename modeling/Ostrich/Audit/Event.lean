import Ostrich.Lib.Json
import Ostrich.Lib.Time
import Ostrich.Lib.Uuid

/-!
# Audit events

The record that the services write (`AuditEvent`), with an enumeration for its type and outcome, and
the row of the database (`Row`), where both are texts.  `computeHash` is the hash of the record,
`computeEventHash` the one that the verifier recomputes from the row.

`Hashing` holds what the hash takes from other crates: SHA-256, the text of a JSON value, and the
value that a JSONB column gives back for a number.
-/

namespace Ostrich.Audit

open Text

/-! ### Events -/

inductive EventType where
  | Authentication
  | Authorization
  | CertificateIssuance
  | CertificateRevocation
  | CrlGeneration
  | KeyGeneration
  | KeyEscrow
  | KeyRecovery
  | KeyDestruction
  | ConfigurationChange
  | AccessViolation
  | TokenLifecycle
  | AcmeProtocol
  | EstProtocol
  | OcspProtocol
  | TampProtocol
  | System
  | Database
  | Other
  deriving DecidableEq, Repr

def EventType.asStr : EventType → String
  | .Authentication => "authentication"
  | .Authorization => "authorization"
  | .CertificateIssuance => "certificate_issuance"
  | .CertificateRevocation => "certificate_revocation"
  | .CrlGeneration => "crl_generation"
  | .KeyGeneration => "key_generation"
  | .KeyEscrow => "key_escrow"
  | .KeyRecovery => "key_recovery"
  | .KeyDestruction => "key_destruction"
  | .ConfigurationChange => "configuration_change"
  | .AccessViolation => "access_violation"
  | .TokenLifecycle => "token_lifecycle"
  | .AcmeProtocol => "acme_protocol"
  | .EstProtocol => "est_protocol"
  | .OcspProtocol => "ocsp_protocol"
  | .TampProtocol => "tamp_protocol"
  | .System => "system"
  | .Database => "database"
  | .Other => "other"

inductive EventOutcome where
  | Success
  | Failure
  | Error
  deriving DecidableEq, Repr

def EventOutcome.asStr : EventOutcome → String
  | .Success => "success"
  | .Failure => "failure"
  | .Error => "error"

/-- An audit record; `Ty` and `Out` are the types of the event type and the outcome. -/
structure Record (Ty Out : Type) where
  id : Uuid
  eventType : Ty
  actor : String
  target : String
  action : String
  outcome : Out
  details : Option Json
  ipAddress : Option String
  userAgent : Option String
  sessionId : Option String
  previousHash : Option (List UInt8)
  eventHash : List UInt8
  timestamp : DateTime
  signature : Option (List UInt8)
  signingKeyId : Option String

/-- The record that a service writes. -/
abbrev AuditEvent := Record EventType EventOutcome

/-- A row of `audit_events`. -/
abbrev Row := Record String String

/-- Convert to the database model. -/
def AuditEvent.toDbModel (e : AuditEvent) : Row :=
  { e with eventType := e.eventType.asStr, outcome := e.outcome.asStr }

/-! ### Hashes -/

/-- What the hash takes from other crates. -/
structure Hashing where
  sha256 : List UInt8 → List UInt8
  /-- `serde_json::to_string`. -/
  jsonToString : Json → Option String
  /-- The number that is read back from a JSONB column. -/
  jsonbNumber : Number → Number

namespace Hashing

variable (env : Hashing)

/-- What the optional details add to the hash. -/
def detailsBytes (details : Option Json) : List UInt8 :=
  match details.bind env.jsonToString with
  | some text => utf8 text
  | none => []

/-- What an optional text adds to the hash. -/
def textBytes (text : Option String) : List UInt8 :=
  match text with
  | some text => utf8 text
  | none => []

/-- The twelve parts that go into the hash, in their order. -/
def hashParts {Ty Out : Type} (typeStr : Ty → String) (outcomeStr : Out → String)
    (e : Record Ty Out) : List (List UInt8) :=
  [e.id.asBytes, utf8 (typeStr e.eventType), utf8 e.actor, utf8 e.target, utf8 e.action,
    utf8 (outcomeStr e.outcome), env.detailsBytes e.details, textBytes e.ipAddress,
    textBytes e.userAgent, textBytes e.sessionId, e.previousHash.getD [],
    utf8 e.timestamp.toRfc3339]

/-- The hash of the record as the service computes it. -/
def computeHash (e : AuditEvent) : List UInt8 :=
  env.sha256 (env.hashParts EventType.asStr EventOutcome.asStr e).flatten

/-- The hash of the row as the verifier computes it. -/
def computeEventHash (row : Row) : List UInt8 := env.sha256 (env.hashParts id id row).flatten

end Hashing

end Ostrich.Audit
