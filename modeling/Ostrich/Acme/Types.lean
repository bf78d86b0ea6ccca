import Mathlib.Data.Int.Notation
import Ostrich.Lib.Uuid

/-!
# The ACME data model (`ostrich-acme`, `ostrich-db/src/models/acme.rs`)

The errors of the ACME service and the rows of its five tables.  A time is an `ℤ` (nanoseconds),
a JSON column is the value that is written to it and read back from it, and the `status` columns
are the `VARCHAR` texts that the tables hold.
-/

namespace Ostrich.Acme

/-- `DateTime<Utc>`, in nanoseconds. -/
abbrev DateTime := ℤ

/-- `chrono::Duration::minutes`. -/
def minutes (n : ℤ) : ℤ := n * 60 * 1000000000

/-- `chrono::Duration::days`. -/
def days (n : ℤ) : ℤ := n * 24 * 60 * 60 * 1000000000

/-- The errors of a database call: no row where one was asked for, a violated constraint, or a
failure of the connection or the server. -/
inductive DbError where
  | RowNotFound
  | Constraint (name : String)
  | Connection
  deriving DecidableEq, Repr

/-- ACME errors (RFC 8555 §6.7). -/
inductive Error where
  | AccountDoesNotExist
  | BadCsr (msg : String)
  | BadNonce
  | Connection (msg : String)
  | Dns (msg : String)
  | IncorrectResponse (msg : String)
  | Malformed (msg : String)
  | OrderNotReady
  | RejectedIdentifier (msg : String)
  | ServerInternal (msg : String)
  | Tls (msg : String)
  | Unauthorized (msg : String)
  | UnsupportedIdentifier (msg : String)
  | UserActionRequired (msg : String)
  | Database (e : DbError)
  | Common (msg : String)
  deriving DecidableEq, Repr

namespace Error

/-- The problem type URN. -/
def errorType : Error → String
  | .AccountDoesNotExist => "urn:ietf:params:acme:error:accountDoesNotExist"
  | .BadCsr _ => "urn:ietf:params:acme:error:badCSR"
  | .BadNonce => "urn:ietf:params:acme:error:badNonce"
  | .Connection _ => "urn:ietf:params:acme:error:connection"
  | .Dns _ => "urn:ietf:params:acme:error:dns"
  | .IncorrectResponse _ => "urn:ietf:params:acme:error:incorrectResponse"
  | .Malformed _ => "urn:ietf:params:acme:error:malformed"
  | .OrderNotReady => "urn:ietf:params:acme:error:orderNotReady"
  | .RejectedIdentifier _ => "urn:ietf:params:acme:error:rejectedIdentifier"
  | .ServerInternal _ => "urn:ietf:params:acme:error:serverInternal"
  | .Tls _ => "urn:ietf:params:acme:error:tls"
  | .Unauthorized _ => "urn:ietf:params:acme:error:unauthorized"
  | .UnsupportedIdentifier _ => "urn:ietf:params:acme:error:unsupportedIdentifier"
  | .UserActionRequired _ => "urn:ietf:params:acme:error:userActionRequired"
  | .Database _ => "urn:ietf:params:acme:error:serverInternal"
  | .Common _ => "urn:ietf:params:acme:error:serverInternal"

/-- The `detail` that a client may see: internal errors collapse to one text. -/
def clientDetail : Error → String
  | .AccountDoesNotExist => "Account does not exist"
  | .BadCsr msg => "Bad CSR: " ++ msg
  | .BadNonce => "Bad nonce"
  | .Connection msg => "Connection error: " ++ msg
  | .Dns msg => "DNS error: " ++ msg
  | .IncorrectResponse msg => "Incorrect response: " ++ msg
  | .Malformed msg => "Malformed request: " ++ msg
  | .OrderNotReady => "Order not ready"
  | .RejectedIdentifier msg => "Rejected identifier: " ++ msg
  | .Tls msg => "TLS error: " ++ msg
  | .Unauthorized msg => "Unauthorized: " ++ msg
  | .UnsupportedIdentifier msg => "Unsupported identifier: " ++ msg
  | .UserActionRequired msg => "User action required: " ++ msg
  | .ServerInternal _ | .Database _ | .Common _ => "Internal server error"

end Error

/-- `Result<T>` of the crate. -/
abbrev Result (α : Type) := Except Error α

/-- An order identifier. -/
structure Identifier where
  idType : String
  value : String
  deriving DecidableEq, Repr

/-- JSON Web Key (RFC 7517). -/
structure Jwk where
  kty : String
  alg : Option String := none
  keyUse : Option String := none
  n : Option String := none
  e : Option String := none
  crv : Option String := none
  x : Option String := none
  y : Option String := none
  deriving DecidableEq, Repr

/-- The problem document stored as a failed challenge's `error`. -/
structure ProblemDocument where
  errorType : String
  detail : String
  deriving DecidableEq, Repr

/-! ### Rows -/

structure AcmeAccount where
  id : Uuid
  accountId : String
  jwkThumbprint : String
  publicKeyJwk : Jwk
  contact : List String
  status : String
  termsOfServiceAgreed : Bool
  createdAt : DateTime
  updatedAt : DateTime
  deriving DecidableEq, Repr

structure AcmeOrder where
  id : Uuid
  orderId : String
  accountId : Uuid
  status : String
  identifiers : List Identifier
  notBefore : Option DateTime
  notAfter : Option DateTime
  expires : DateTime
  certificateId : Option Uuid
  csrDer : Option (List UInt8)
  createdAt : DateTime
  updatedAt : DateTime
  deriving DecidableEq, Repr

structure AcmeAuthorization where
  id : Uuid
  authorizationId : String
  orderId : Uuid
  identifierType : String
  identifierValue : String
  status : String
  expires : DateTime
  wildcard : Bool
  createdAt : DateTime
  updatedAt : DateTime
  deriving DecidableEq, Repr

structure AcmeChallenge where
  id : Uuid
  challengeId : String
  authorizationId : Uuid
  challengeType : String
  token : String
  status : String
  validatedAt : Option DateTime
  errorDetail : Option ProblemDocument
  createdAt : DateTime
  updatedAt : DateTime
  deriving DecidableEq, Repr

structure AcmeNonce where
  nonce : String
  createdAt : DateTime
  expiresAt : DateTime
  deriving DecidableEq, Repr

end Ostrich.Acme
