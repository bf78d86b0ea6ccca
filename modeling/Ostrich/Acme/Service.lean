import Ostrich.Acme.Types

/-!
# What the ACME service returns and records (`ostrich-acme/src/rest.rs`)

The objects of the responses, made from the rows (`mapDb…ToService`; fields that are not serialized
are left out), and the audit events.
-/

namespace Ostrich.Acme

/-! ### Objects -/

inductive AccountStatus where
  | Valid | Deactivated | Revoked
  deriving DecidableEq, Repr

inductive OrderStatus where
  | Pending | Ready | Processing | Valid | Invalid
  deriving DecidableEq, Repr

inductive AuthorizationStatus where
  | Pending | Valid | Invalid | Deactivated | Expired | Revoked
  deriving DecidableEq, Repr

inductive ChallengeType where
  | Http01 | Dns01 | TlsAlpn01
  deriving DecidableEq, Repr

inductive ChallengeStatus where
  | Pending | Processing | Valid | Invalid
  deriving DecidableEq, Repr

structure Account where
  status : AccountStatus
  contact : List String
  termsOfServiceAgreed : Option Bool
  orders : String
  deriving DecidableEq, Repr

structure Order where
  status : OrderStatus
  expires : Option DateTime
  identifiers : List Identifier
  notBefore : Option DateTime
  notAfter : Option DateTime
  authorizations : List String
  finalize : String
  certificate : Option String
  deriving DecidableEq, Repr

structure Challenge where
  challengeType : ChallengeType
  status : ChallengeStatus
  url : String
  token : String
  error : Option ProblemDocument
  validated : Option DateTime
  deriving DecidableEq, Repr

structure Authorization where
  status : AuthorizationStatus
  expires : Option DateTime
  identifier : Identifier
  challenges : List Challenge
  wildcard : Option Bool
  deriving DecidableEq, Repr

def mapDbAccountToService (db : AcmeAccount) (baseUrl : String) : Account where
  status := match db.status with
    | "valid" => .Valid
    | "deactivated" => .Deactivated
    | "revoked" => .Revoked
    | _ => .Valid
  contact := db.contact
  termsOfServiceAgreed := some db.termsOfServiceAgreed
  orders := baseUrl ++ "/acme/account/" ++ db.accountId ++ "/orders"

def mapDbOrderToService (db : AcmeOrder) (authorizations : List String) (baseUrl : String) :
    Order where
  status := match db.status with
    | "pending" => .Pending
    | "ready" => .Ready
    | "processing" => .Processing
    | "valid" => .Valid
    | "invalid" => .Invalid
    | _ => .Pending
  expires := some db.expires
  identifiers := db.identifiers
  notBefore := db.notBefore
  notAfter := db.notAfter
  authorizations := authorizations
  finalize := baseUrl ++ "/acme/order/" ++ db.orderId ++ "/finalize"
  certificate := db.certificateId.map fun _ => baseUrl ++ "/acme/cert/" ++ db.orderId

def mapDbChallengeToService (db : AcmeChallenge) (baseUrl : String) : Challenge where
  challengeType := match db.challengeType with
    | "http-01" => .Http01
    | "dns-01" => .Dns01
    | "tls-alpn-01" => .TlsAlpn01
    | _ => .Http01
  status := match db.status with
    | "pending" => .Pending
    | "processing" => .Processing
    | "valid" => .Valid
    | "invalid" => .Invalid
    | _ => .Pending
  url := baseUrl ++ "/acme/challenge/" ++ db.challengeId
  token := db.token
  error := db.errorDetail
  validated := db.validatedAt

def mapDbAuthorizationToService (db : AcmeAuthorization) (challenges : List Challenge) :
    Authorization where
  status := match db.status with
    | "pending" => .Pending
    | "valid" => .Valid
    | "invalid" => .Invalid
    | "deactivated" => .Deactivated
    | "expired" => .Expired
    | "revoked" => .Revoked
    | _ => .Pending
  expires := some db.expires
  identifier := ⟨db.identifierType, db.identifierValue⟩
  challenges := challenges
  wildcard := if db.wildcard then some true else none

/-! ### Responses -/

inductive Body where
  | empty
  | account (a : Account)
  | order (o : Order)
  | authorization (a : Authorization)
  | challenge (c : Challenge)
  deriving DecidableEq, Repr

/-- An HTTP response. -/
structure Response where
  status : ℕ
  replayNonce : String
  location : Option String := none
  /-- The `Link` header. -/
  link : Option String := none
  body : Body
  deriving DecidableEq, Repr

/-! ### Audit events -/

inductive EventType where
  | AcmeProtocol
  | Authentication
  deriving DecidableEq, Repr

inductive EventOutcome where
  | Success
  | Failure
  deriving DecidableEq, Repr

/-- The details of an event: the summary of an order's identifiers and the problem type. -/
structure AuditDetails where
  /-- Number of identifiers: all, `dns`, `ip`, other, wildcards. -/
  counts : Option (ℕ × ℕ × ℕ × ℕ × ℕ) := none
  identifiers : Option (List String) := none
  problemType : Option String := none
  deriving DecidableEq, Repr

structure AuditEvent where
  eventType : EventType
  actor : String
  target : String
  action : String
  outcome : EventOutcome
  details : AuditDetails := {}
  deriving DecidableEq, Repr

/-- The counts of a newOrder request. -/
def identifierCounts (identifiers : List Identifier) : ℕ × ℕ × ℕ × ℕ × ℕ :=
  let dns := identifiers.filter fun id => id.idType = "dns"
  let ip := identifiers.filter fun id => id.idType = "ip"
  (identifiers.length, dns.length, ip.length, identifiers.length - dns.length - ip.length,
    (dns.filter fun id => "*.".toList.isPrefixOf id.value.toList).length)

/-- The record of a newOrder request: a created order, or the error that refused it. -/
def newOrderAuditEvent (accountId : String) (orderId : Option String)
    (identifiers : List Identifier) (refusal : Option Error) : AuditEvent :=
  let counts := some (identifierCounts identifiers)
  match orderId, refusal with
  | _, some e => ⟨.AcmeProtocol, accountId, "acme:new-order", "new_order", .Failure,
      { counts, problemType := some e.errorType }⟩
  | some orderId, none =>
      ⟨.AcmeProtocol, accountId, "acme:order:" ++ orderId, "new_order", .Success,
      { counts, identifiers := some (identifiers.map fun id => id.idType ++ ":" ++ id.value) }⟩
  | none, none =>
    ⟨.AcmeProtocol, accountId, "acme:new-order", "new_order", .Failure, { counts }⟩

/-- The record of a refused finalize request. -/
def finalizeRefusalAuditEvent (accountId orderId : String) (refusal : Error) : AuditEvent :=
  ⟨.AcmeProtocol, accountId, "acme:order:" ++ orderId, "finalize_order", .Failure,
    { problemType := some refusal.errorType }⟩

/-- The record of a challenge validation. -/
def validateChallengeAuditEvent (challengeId : String) (valid : Bool) : AuditEvent :=
  ⟨.Authentication, "acme-validator", "acme:challenge:" ++ challengeId, "validate_challenge",
    if valid then .Success else .Failure, {}⟩

/-- The problem document stored as a failed challenge's `error`. -/
def challengeErrorDocument (e : Error) : ProblemDocument := ⟨e.errorType, e.clientDetail⟩

end Ostrich.Acme
