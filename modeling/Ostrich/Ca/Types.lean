import Ostrich.Common.Auth
import Ostrich.Lib.Json
import Ostrich.Lib.Net
import Ostrich.Lib.Time
import Ostrich.X509.Csr
import Ostrich.X509.Profile

/-!
# Data of the certificate authority (`ostrich-ca`, `ostrich-db/src/models/`)

The rows of `certificates`, `crls`, `approval_requests` and `approval_decisions`, and what is
signed.  A row holds the signed structure where the table holds its DER and PEM.  Columns that no
modelled function reads are left out.
-/

namespace Ostrich.Ca

open Common X509

inductive DbError where
  | Query (message : String)
  | NotFound (message : String)
  | Connection (message : String)
  deriving DecidableEq, Repr

/-- The text of a database error. -/
def DbError.display : DbError → String
  | .Query message => "Database query error: " ++ message
  | .NotFound message => "Record not found: " ++ message
  | .Connection message => "Database connection error: " ++ message

inductive Error where
  | Issuance (message : String)
  | Revocation (message : String)
  | CrlGeneration (message : String)
  | ProfileNotFound (name : String)
  | InvalidRequest (message : String)
  | SelfApprovalProhibited
  | InsufficientRole (required : String)
  | InvalidApprovalState (current expected : String)
  | ApprovalRequestExpired (expiredAt : DateTime)
  | ApprovalRequestNotFound (id : Uuid)
  | ProfileNotPermitted
  | Internal (message : String)
  | Database (e : DbError)
  | Crypto (message : String)
  | X509 (message : String)
  | Audit
  | Common (message : String)
  /-- The request ended in a panic. -/
  | Panic
  deriving DecidableEq, Repr

/-! ### Certificates -/

/-- Subject alternative name (`ostrich-x509/src/extensions.rs`). -/
inductive SubjectAltName where
  | DnsName (name : String)
  | Rfc822Name (email : String)
  | UniformResourceIdentifier (uri : String)
  | IpAddress (ip : Net.IpAddr)
  | DirectoryName (dn : String)
  deriving DecidableEq

/-- To-be-signed certificate. -/
structure TbsCertificate where
  serialNumber : List UInt8
  subject : DistinguishedName
  issuer : DistinguishedName
  notBefore : DateTime
  notAfter : DateTime
  publicKey : List UInt8
  keyUsage : List KeyUsage
  extendedKeyUsage : List ExtendedKeyUsage
  basicConstraintsCa : Bool
  basicConstraintsPathLen : Option ℕ
  subjectAltNames : List SubjectAltName
  deriving DecidableEq

/-- A row of `certificates`. -/
structure Certificate where
  id : Uuid
  caId : Uuid
  serialNumber : List UInt8
  tbs : TbsCertificate
  signature : List UInt8
  revoked : Bool
  revocationTime : Option DateTime
  revocationReason : Option ℤ
  requestor : Option String
  profileName : Option String
  requestId : Option Uuid
  deriving DecidableEq

/-- The authenticated service that made the call. -/
structure AuthenticatedCaller where
  subjectDn : String
  deriving DecidableEq, Repr

/-- Certificate issuance request. -/
structure IssuanceRequest where
  profileName : String
  subject : DistinguishedName
  subjectAltNames : List SubjectAltName
  publicKey : List UInt8
  requestor : String
  authenticatedCaller : Option AuthenticatedCaller
  csrDer : Option (List UInt8)
  approvalRequestId : Option Uuid
  requestId : Option Uuid
  deriving DecidableEq

/-! ### Certificate revocation lists -/

/-- Information about a revoked certificate. -/
structure RevokedCertificateInfo where
  serialNumber : List UInt8
  revocationTime : DateTime
  reason : Option ℤ
  deriving DecidableEq, Repr

/-- To-be-signed CRL. -/
structure TbsCrl where
  thisUpdate : DateTime
  nextUpdate : DateTime
  crlNumber : ℤ
  revokedCertificates : List RevokedCertificateInfo
  baseCrlNumber : Option ℤ
  freshestCrlUrl : Option String
  deriving DecidableEq, Repr

/-- A row of `crls`. -/
structure Crl where
  caId : Uuid
  crlNumber : ℤ
  thisUpdate : DateTime
  nextUpdate : DateTime
  tbs : TbsCrl
  signature : List UInt8
  isDelta : Bool
  baseCrlNumber : Option ℤ
  deriving DecidableEq, Repr

/-- The serial numbers that the CRL lists. -/
def Crl.serials (crl : Crl) : List (List UInt8) := crl.tbs.revokedCertificates.map (·.serialNumber)

/-! ### Approvals -/

inductive RequestType where
  | Issuance
  | Revocation
  | Renewal
  deriving DecidableEq, Repr

inductive ApprovalStatus where
  | Pending
  | Approved
  | Rejected
  | Expired
  | Completed
  deriving DecidableEq, Repr

/-- The name of the request type (`Debug`). -/
def RequestType.name : RequestType → String
  | .Issuance => "Issuance"
  | .Revocation => "Revocation"
  | .Renewal => "Renewal"

/-- The name of the status (`Debug`). -/
def ApprovalStatus.name : ApprovalStatus → String
  | .Pending => "Pending"
  | .Approved => "Approved"
  | .Rejected => "Rejected"
  | .Expired => "Expired"
  | .Completed => "Completed"

inductive Decision where
  | Approved
  | Rejected
  | NeedsInfo
  | Deferred
  deriving DecidableEq, Repr

/-- A row of `approval_requests`.  The texts of the type and the status columns are those of the
enumerations (by `CHECK`), so `from_record` reads back what was written. -/
structure ApprovalRequestRecord where
  id : Uuid
  requestType : RequestType
  certificateId : Option Uuid
  requestorId : Uuid
  requestorUsername : String
  status : ApprovalStatus
  requestDetails : Json
  createdAt : DateTime
  expiresAt : DateTime
  approvedAt : Option DateTime
  completedAt : Option DateTime

/-- A row of `approval_decisions`. -/
structure ApprovalDecisionRecord where
  id : Uuid
  requestId : Uuid
  approverId : Uuid
  approverUsername : String
  approverRoles : List Role
  decision : Decision
  reason : Option String
  justification : Option String
  decidedAt : DateTime
  validationOverridden : Bool
  deriving DecidableEq, Repr

end Ostrich.Ca
