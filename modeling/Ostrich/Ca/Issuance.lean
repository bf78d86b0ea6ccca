import Ostrich.Ca.Repository
import Ostrich.Lib.Interleave
import Ostrich.X509.SecureDefaults

/-!
# Certificate issuance (`ostrich-ca/src/issuance.rs`)

`issue` is `CertificateIssuer::issue`: it checks the profile, the approval request and the CSR,
signs a certificate with a random serial number, stores it, and links it to the approval request.

The steps that other tasks can come between are `Call`s: a database statement, a look at the clock,
a random draw, a signature, an audit record.
-/

namespace Ostrich.Ca

open Common Crypto Interleave X509

/-! ### Calls -/

/-- An audit record: what it is about, the action, the outcome, and of the details the profile, the
id of the request and the reason of a failure. -/
structure AuditEvent where
  target : String
  action : String
  success : Bool := true
  profile : Option String := none
  requestId : Option Uuid := none
  failure : Option String := none
  deriving DecidableEq

/-- The record of a failure instead. -/
def AuditEvent.failed (event : AuditEvent) (failure : Option String := none) : AuditEvent :=
  { event with success := false, failure }

inductive Call where
  | db (q : Query)
  /-- `Utc::now`. -/
  | now
  /-- `Uuid::new_v4`. -/
  | newUuid
  /-- `fips_random_bytes(20)`. -/
  | randomBytes
  | sign (der : List UInt8)
  | audit (event : AuditEvent)

abbrev Reply : Call → Type
  | .db q => DbReply q.Result
  | .now => DateTime
  | .newUuid => Uuid
  | .randomBytes => Except String { bytes : List UInt8 // bytes.length = 20 }
  | .sign _ => Except String (List UInt8)
  -- whether the record was written
  | .audit _ => Bool

abbrev CaM := Prog Call Reply Error

/-- Make a call. -/
def await (e : Call) : CaM (Reply e) := Prog.perform e

/-- Run a statement; its failure is an error. -/
def query (q : Query) : CaM q.Result := do
  match ← await (.db q) with
  | .ok a => return a
  | .error e _ => .fail (.Database e)

/-- Write an audit record; that it cannot be written is an error. -/
def record (event : AuditEvent) : CaM Unit := do
  if ← await (.audit event) then return ()
  else .fail .Audit

/-- Record a failure and return the error. -/
def refuse {α : Type} (event : AuditEvent) (e : Error) : CaM α := do
  record event
  .fail e

/-- The result of a parser. -/
def ofOutcome {α : Type} (wrap : X509.Error → Error) : Outcome X509.Error α → CaM α
  | .ok a => return a
  | .err e => .fail (wrap e)
  | .panic => .fail .Panic
  | .hang => .fail .Panic

/-- The result of a function of another crate. -/
def ofExcept {α : Type} (wrap : String → Error) : Except String α → CaM α
  | .ok a => return a
  | .error e => .fail (wrap e)

/-! ### Configuration -/

/-- The configuration of the CA, and what it takes from other crates. -/
structure Env where
  caId : Uuid
  requireApproval : Bool
  /-- An approval repository is configured. -/
  approvalRepo : Bool
  requireProofOfPossession : Bool
  /-- `expiration_duration`, in seconds. -/
  expirationDuration : ℕ
  crlValidityHours : ℕ
  deltaCrlUrl : Option String
  profiles : String → Option CertificateProfile
  secureDefaults : SecureDefaults
  asn1 : Asn1Lib
  verifyWithSpki : VerifyWithSpki
  /-- The subject of the CA certificate. -/
  caSubject : Except String DistinguishedName
  /-- `recommended_signature_algorithm` of the CA key. -/
  signatureAlgorithm : Except String Algorithm
  keyIdentifier : List UInt8 → Except String (List UInt8)
  certificateToDer : TbsCertificate → Except String (List UInt8)
  crlToDer : TbsCrl → Except String (List UInt8)
  encodeSignature : Algorithm → List UInt8 → Except String (List UInt8)
  decodePem : String → Except String (List UInt8)
  parseUuid : String → Option Uuid

variable (env : Env)

/-! ### Checks -/

/-- The approval request must be approved, be one for issuance, and not be used yet. -/
def checkApproval (event : AuditEvent) (request : IssuanceRequest) : CaM Unit := do
  if !env.requireApproval then return ()
  match request.approvalRequestId with
  | none => .fail (.InvalidRequest
      "Approval request ID is required when approval workflow is enabled")
  | some id =>
    if !env.approvalRepo then .fail (.Internal "approval workflow unavailable")
    else
      match ← query (.getRequest id) with
      | none => .fail (.InvalidRequest ("Approval request not found: " ++ id.toString))
      | some approval =>
        if approval.status ≠ .Approved then
          refuse event.failed (.InvalidRequest
            ("Approval request must be in Approved status, current status: "
              ++ approval.status.name))
        else if approval.requestType ≠ .Issuance then
          refuse event.failed (.InvalidRequest
            ("Approval request type mismatch: expected Issuance, got "
              ++ approval.requestType.name))
        else if approval.certificateId ≠ none then
          refuse event.failed (.InvalidRequest
            "Approval request has already been used to issue a certificate")
        else return ()

/-- The CSR must be signed by the key that it is for, which must be that of the request. -/
def checkCsr (event : AuditEvent) (request : IssuanceRequest) (csrDer : List UInt8) :
    CaM Unit := do
  let parsed ← ofOutcome (fun _ => .InvalidRequest "CSR could not be parsed")
    (parseCsr env.asn1 csrDer)
  let valid ← ofOutcome (fun _ => .InvalidRequest "CSR signature verification failed")
    (verifyCsrSignature env.asn1 env.verifyWithSpki parsed)
  if !valid then
    refuse event.failed (.InvalidRequest "Invalid CSR signature - proof of possession failed")
  else if parsed.publicKey ≠ request.publicKey then
    refuse event.failed (.InvalidRequest "CSR public key does not match request public key")
  else return ()

/-- The checks of the request against its profile. -/
def checkRequest (event : AuditEvent) (profile : CertificateProfile) (request : IssuanceRequest) :
    CaM Unit := do
  if profile.subjectAltNameRequired && request.subjectAltNames.isEmpty then
    refuse event.failed
      (.InvalidRequest "Subject alternative names are required for this profile")
  else
    match request.csrDer with
    | some csrDer => checkCsr env event request csrDer
    | none =>
      if env.requireProofOfPossession && !profile.basicConstraintsCa then
        refuse event.failed (.InvalidRequest ("proof-of-possession required: end-entity issuance "
          ++ "must include a CSR (RFC 2986 / SI-10)"))
      else return ()

/-! ### Building -/

/-- Clear the high bit. -/
def clearHighBit : List UInt8 → List UInt8
  | [] => []
  | b :: bytes => (b &&& 0x7F) :: bytes

/-- `SerialNumber::from_bytes`. -/
def serialNumberFromBytes (bytes : List UInt8) : Except Error (List UInt8) :=
  match bytes with
  | [] => .error (.Common "Serial number cannot be empty")
  | b :: _ =>
    if bytes.length > 20 then .error (.Common "Serial number exceeds 20 octets")
    else if b &&& 0x80 ≠ 0 then .error (.Common "Serial number must be positive")
    else .ok bytes

/-- Generate a cryptographically random serial number. -/
def generateSerialNumber : CaM (List UInt8) := do
  match ← await .randomBytes with
  | .error e => .fail (.Crypto e)
  | .ok bytes => Prog.ofExcept (serialNumberFromBytes (clearHighBit bytes.1))

/-- The certificate of the request, to be signed. -/
def tbsCertificate (profile : CertificateProfile) (request : IssuanceRequest)
    (serialNumber : List UInt8) (issuer : DistinguishedName) (notBefore notAfter : DateTime) :
    TbsCertificate where
  serialNumber := serialNumber
  subject := request.subject
  issuer := issuer
  notBefore := notBefore
  notAfter := notAfter
  publicKey := request.publicKey
  keyUsage := profile.keyUsage
  extendedKeyUsage := profile.extendedKeyUsage
  basicConstraintsCa := profile.basicConstraintsCa
  basicConstraintsPathLen := profile.basicConstraintsPathLen
  subjectAltNames := request.subjectAltNames

/-- Sign an encoded structure; the signature as X.509 encodes it. -/
def signDer (algorithm : Algorithm) (der : List UInt8) : CaM (List UInt8) := do
  match ← await (.sign der) with
  | .error e => .fail (.Crypto e)
  | .ok signature =>
    ofExcept (fun e => .Issuance ("failed to encode signature: " ++ e))
      (env.encodeSignature algorithm signature)

/-- Build and sign the certificate. -/
def buildCertificate (profile : CertificateProfile) (request : IssuanceRequest)
    (requestId : Uuid) : CaM Certificate := do
  let serialNumber ← generateSerialNumber
  let issuer ← ofExcept (fun e => .Issuance ("Failed to parse CA subject DN: " ++ e))
    env.caSubject
  let algorithm ← ofExcept (fun e => .Issuance ("unsupported CA key type for issuance: " ++ e))
    env.signatureAlgorithm
  let notBefore ← await .now
  match notBefore.addSeconds (profile.validityDays * 86400) with
  | none => .fail .Panic
  | some notAfter =>
    let _ ← ofExcept (fun e => .Issuance ("failed to compute subject key id: " ++ e))
      (env.keyIdentifier request.publicKey)
    if notAfter ≤ notBefore then .fail (.X509 "Not after must be later than not before")
    else
      let tbs := tbsCertificate profile request serialNumber issuer notBefore notAfter
      let der ← ofExcept .X509 (env.certificateToDer tbs)
      let signature ← signDer env algorithm der
      let id ← await .newUuid
      return { id, caId := env.caId, serialNumber, tbs, signature, revoked := false,
               revocationTime := none, revocationReason := none,
               requestor := some request.requestor, profileName := some request.profileName,
               requestId := some requestId }

/-! ### Issuing -/

/-- Link the certificate to the approval request. -/
def linkApproval (request : IssuanceRequest) (certificateId : Uuid) : CaM Unit :=
  match request.approvalRequestId with
  | none => return ()
  | some id =>
    if env.approvalRepo then query (.markRequestCompleted id certificateId) else return ()

/-- The id that the caller supplied, or a new one. -/
def requestIdOf (request : IssuanceRequest) : CaM Uuid :=
  match request.requestId with
  | some id => return id
  | none => await .newUuid

/-- The audit record of an issuance that succeeds. -/
def issuanceEvent (request : IssuanceRequest) (requestId : Uuid) : AuditEvent where
  target := request.subject.toStringRfc4514
  action := "issue"
  profile := some request.profileName
  requestId := some requestId

/-- Issue a certificate. -/
def issue (request : IssuanceRequest) : CaM Certificate := do
  let requestId ← requestIdOf request
  let event := issuanceEvent request requestId
  match env.profiles request.profileName with
  | none => .fail (.ProfileNotFound request.profileName)
  | some profile =>
    if request.authenticatedCaller.isSome && profile.basicConstraintsCa then
      let _ ← await (.audit (event.failed (some "ca_profile_not_permitted")))
      .fail .ProfileNotPermitted
    else
      ofExcept .X509 profile.validate
      ofExcept .X509 (env.secureDefaults.validateProfile profile)
      checkApproval env event request
      checkRequest env event profile request
      let certificate ← buildCertificate env profile request requestId
      query (.createCertificate certificate)
      linkApproval env request certificate.id
      record event
      return certificate

end Ostrich.Ca
