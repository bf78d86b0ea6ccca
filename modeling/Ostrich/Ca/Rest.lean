import Ostrich.Ca.Approval
import Ostrich.Ca.Revocation

/-!
# The handlers of the certificate authority (`ostrich-ca/src/rest.rs`), and the system

`issueCertificate` and `issueFromApprovedRequest` are the two ways to `issue`: the first takes what
to issue from the caller, the second from the approved request.  `approveRequest` records a
decision, writes the status and issues the certificate; `rejectRequest` records and writes.

The tasks of `system` are the requests and jobs of the service; any number of them run at once.
-/

namespace Ostrich.Ca

open Common Interleave X509

/-! ### Subject alternative names -/

/-- `str::to_ascii_uppercase`. -/
def toAsciiUppercase (s : String) : String := String.ofList (s.toList.map Char.toUpper)

/-- One prefixed string as a subject alternative name. -/
def sanFromString (s : String) : Option SubjectAltName := do
  let (kind, value) ← Text.splitOnce ':' s
  match toAsciiUppercase kind with
  | "DNS" => some (.DnsName value)
  | "EMAIL" => some (.Rfc822Name value)
  | "URI" => some (.UniformResourceIdentifier value)
  | "IP" => (Net.parseIpAddr value).map .IpAddress
  | _ => none

/-- Convert the prefixed strings of a CSR; the others are dropped. -/
def sansFromStrings (sans : List String) : List SubjectAltName := sans.filterMap sanFromString

/-- The names that the request asks for, or else those of its CSR. -/
def resolveApprovalSans (details : Json) (csrSans : List String) : List SubjectAltName :=
  let requested :=
    match (details.get? "subject_alt_names").bind Json.asArray with
    | some names => names.filterMap Json.asStr
    | none => []
  if requested.isEmpty then sansFromStrings csrSans else sansFromStrings requested

variable (env : Env)

/-! ### Issuing directly -/

/-- The body of a direct request. -/
structure IssueCertificateRequest where
  profileName : String
  subject : Option DistinguishedName
  subjectAltNames : List SubjectAltName
  publicKey : Option (List UInt8)
  csrDer : Option (List UInt8)
  approvalRequestId : Option String

/-- The id of the approval request that the caller names. -/
def parseApprovalRequestId (id : Option String) : Except Error (Option Uuid) :=
  match id with
  | none => .ok none
  | some text =>
    match env.parseUuid text with
    | none => .error (.InvalidRequest "Invalid approval_request_id")
    | some id => .ok (some id)

/-- The subject that the caller names, or else that of the CSR. -/
def subjectOrCsr (subject : Option DistinguishedName) (csrDer : List UInt8) :
    CaM DistinguishedName :=
  match subject with
  | some subject => return subject
  | none => ofOutcome (fun e => .InvalidRequest ("Invalid CSR subject: " ++ e.display))
      (parseCsrSubjectDn env.asn1 csrDer)

/-- What to issue: each part that the caller omits is that of the CSR. -/
def resolveSubject (req : IssueCertificateRequest) :
    CaM (DistinguishedName × List UInt8 × List SubjectAltName) := do
  match req.csrDer with
  | some csrDer =>
    let parsed ← ofOutcome (fun e => .InvalidRequest ("Invalid CSR: " ++ e.display))
      (parseCsr env.asn1 csrDer)
    let subject ← subjectOrCsr env req.subject csrDer
    let publicKey := req.publicKey.getD parsed.publicKey
    let subjectAltNames := if req.subjectAltNames.isEmpty
      then sansFromStrings parsed.subjectAlternativeNames else req.subjectAltNames
    return (subject, publicKey, subjectAltNames)
  | none =>
    match req.subject, req.publicKey with
    | none, _ => .fail (.InvalidRequest "subject is required when no CSR is supplied")
    | some _, none => .fail (.InvalidRequest "public_key is required when no CSR is supplied")
    | some subject, some publicKey => return (subject, publicKey, req.subjectAltNames)

/-- Issue a new certificate. -/
def issueCertificate (user : AuthenticatedUser) (req : IssueCertificateRequest) :
    CaM Certificate := do
  let approvalRequestId ← Prog.ofExcept (parseApprovalRequestId env req.approvalRequestId)
  let (subject, publicKey, subjectAltNames) ← resolveSubject env req
  issue env
    { profileName := req.profileName, subject, subjectAltNames, publicKey,
      requestor := user.username, authenticatedCaller := none, csrDer := req.csrDer,
      approvalRequestId, requestId := none }

/-! ### Approvals -/

/-- A bridged user gets a row in `users`. -/
def ensurePrincipalProvisioned (user : AuthenticatedUser) : CaM Unit := do
  if user.certificateSubject.isNone then return ()
  match ← await (.db (.ensureUser user)) with
  | .ok () => return ()
  | .error e _ => .fail (.Internal ("Failed to provision requestor identity: " ++ e.display))

/-- Submit approval request. -/
def submitApprovalRequest (user : AuthenticatedUser) (requestType : RequestType)
    (requestDetails : Json) : CaM Unit := do
  ensurePrincipalProvisioned user
  let submitted ← ApprovalEngine.createRequest env requestType user requestDetails
  query (.createRequest submitted)

/-- What the approved request is for: its profile and its CSR. -/
def approvedDetails (details : Json) : CaM (String × List UInt8) := do
  match (details.get? "csr_pem").bind Json.asStr with
  | none => .fail (.InvalidRequest "approved request has no csr_pem to issue from")
  | some csrPem =>
    match (details.get? "profile").bind Json.asStr with
    | none => .fail (.InvalidRequest "approved request has no profile to issue against")
    | some profile =>
      let csrDer ← ofExcept (fun e => .InvalidRequest ("invalid CSR PEM: " ++ e))
        (env.decodePem csrPem)
      return (profile, csrDer)

/-- Issue the certificate for a just-approved request from the CSR the requestor submitted. -/
def issueFromApprovedRequest (request : ApprovalRequestRecord) : CaM Certificate := do
  let (profile, csrDer) ← approvedDetails env request.requestDetails
  let parsed ← ofOutcome (fun e => .InvalidRequest ("invalid CSR: " ++ e.display))
    (parseCsr env.asn1 csrDer)
  let subject ← ofOutcome (fun e => .InvalidRequest ("invalid CSR subject: " ++ e.display))
    (parseCsrSubjectDn env.asn1 csrDer)
  let subjectAltNames := resolveApprovalSans request.requestDetails parsed.subjectAlternativeNames
  issue env
    { profileName := profile, subject, subjectAltNames, publicKey := parsed.publicKey,
      requestor := request.requestorUsername, authenticatedCaller := none, csrDer := some csrDer,
      approvalRequestId := some request.id, requestId := none }

/-- Read the request that a handler decides, with its id. -/
def requestToDecide (user : AuthenticatedUser) (id : String) (check : CaM Unit) :
    CaM (Uuid × ApprovalRequestRecord) := do
  match env.parseUuid id with
  | none => .fail (.InvalidRequest "Invalid request ID")
  | some requestId =>
    ensurePrincipalProvisioned user
    check
    match ← query (.getRequest requestId) with
    | none => .fail (.ApprovalRequestNotFound requestId)
    | some request => return (requestId, request)

/-- Approving despite validation advisories needs another permission. -/
def checkOverride (user : AuthenticatedUser) (override : Bool) : CaM Unit :=
  if override && !anyRoleHasPermission user.roles .OverrideValidation then
    .fail (.InsufficientRole "OverrideValidation")
  else return ()

/-- Issue the certificate of a request that was approved, and mark the request. -/
def autoIssue (requestId : Uuid) (request : ApprovalRequestRecord) : CaM Unit := do
  if request.certificateId.isNone ∧ request.requestType ≠ .Revocation then
    let certificate ← issueFromApprovedRequest env request
    query (.markRequestCompleted requestId certificate.id)
  else return ()

/-- Approve request. -/
def approveRequest (user : AuthenticatedUser) (id : String) (override : Bool)
    (justification : Option String) : CaM Unit := do
  let (requestId, read) ← requestToDecide env user id (checkOverride user override)
  let base := justification.getD "Approved"
  let (decision, request) ← ApprovalEngine.approveRequest read user
    (if override then base ++ " [validation overridden]" else base)
  query (.createDecision { decision with validationOverridden := override })
  query (.updateRequestStatus requestId request.status request.approvedAt)
  autoIssue env requestId request

/-- Reject request. -/
def rejectRequest (user : AuthenticatedUser) (id : String) (reason justification : Option String) :
    CaM Unit := do
  let (requestId, read) ← requestToDecide env user id (return ())
  let (decision, request) ← ApprovalEngine.rejectRequest read user (reason.getD "Rejected")
    (justification.getD "Request rejected")
  query (.createDecision decision)
  query (.updateRequestStatus requestId request.status request.approvedAt)

/-! ### The system -/

/-- The requests and jobs of the service. -/
inductive Task where
  | submitApprovalRequest (user : AuthenticatedUser) (requestType : RequestType)
      (requestDetails : Json)
  | approveRequest (user : AuthenticatedUser) (id : String) (override : Bool)
      (justification : Option String)
  | rejectRequest (user : AuthenticatedUser) (id : String) (reason justification : Option String)
  | expireOldRequests
  | issueCertificate (user : AuthenticatedUser) (req : IssueCertificateRequest)
  /-- A service asks for a certificate, without an approval request (`grpc.rs`). -/
  | serviceIssue (request : IssuanceRequest)
  /-- The service of another CA stores a certificate. -/
  | storeCertificate (cert : Certificate)
  | revoke (certificateId : Uuid) (reason : ℤ)
  | generateCrl (caId : Uuid)
  | generateDeltaCrl (caId : Uuid)

/-- The programs of the tasks. -/
def body : Task → CaM Unit
  | .submitApprovalRequest user requestType details =>
    submitApprovalRequest env user requestType details
  | .approveRequest user id override justification =>
    approveRequest env user id override justification
  | .rejectRequest user id reason justification => rejectRequest env user id reason justification
  | .expireOldRequests => query .expireOldRequests
  | .issueCertificate user req => do
    let _ ← issueCertificate env user req
    return ()
  | .serviceIssue request => do
    let _ ← issue env { request with approvalRequestId := none }
    return ()
  | .storeCertificate cert =>
    query (.createCertificate
      { cert with revoked := false, revocationTime := none, revocationReason := none })
  | .revoke certificateId reason => revoke certificateId reason
  | .generateCrl caId => do
    let _ ← generateCrl env caId
    return ()
  | .generateDeltaCrl caId => do
    let _ ← generateDeltaCrl env caId
    return ()

/-- What the tasks do not control: whether a statement fails, the time, random values, signatures,
and whether an audit record is written. -/
structure Choice where
  fault : Fault
  now : DateTime
  uuid : Uuid
  random : Except String { bytes : List UInt8 // bytes.length = 20 }
  signature : Except String (List UInt8)
  audited : Bool

/-- Answer a call. -/
def exec (e : Call) (c : Choice) (s : Store) : Reply e × Store :=
  match e with
  | .db q => q.exec c.fault c.now s
  | .now => (c.now, s)
  | .newUuid => (c.uuid, s)
  | .randomBytes => (c.random, s)
  | .sign _ => (c.signature, s)
  | .audit _ => (c.audited, s)

/-- The certificate authority. -/
def system : System Call Reply Error Unit Task Store Choice where
  body := body env
  exec := exec
  spawned := fun _ => none

/-- The operations that change certificates. -/
inductive Operation where
  | issue (request : IssuanceRequest)
  | revoke (certificateId : Uuid) (reason : ℤ)

/-- The programs of the operations; the first returns the certificate. -/
def operation : Operation → CaM (Option Certificate)
  | .issue request => do
    let certificate ← issue env request
    return some certificate
  | .revoke certificateId reason => do
    revoke certificateId reason
    return none

/-- Calls of the two operations. -/
def operations : System Call Reply Error (Option Certificate) Operation Store Choice where
  body := operation env
  exec := exec
  spawned := fun _ => none

abbrev CaEvent := Event Call Reply Error Unit Task
abbrev CaWorld := World Call Reply Error Unit Task Store
abbrev CaConfig := Config Call Reply Error Unit Task Store

abbrev OpEvent := Event Call Reply Error (Option Certificate) Operation
abbrev OpWorld := World Call Reply Error (Option Certificate) Operation Store
abbrev OpConfig := Config Call Reply Error (Option Certificate) Operation Store

end Ostrich.Ca
