import Ostrich.Est.Identity
import Ostrich.Lib.Interleave

/-!
# The handlers of the EST service (`ostrich-est/src/rest.rs`), and the system

`simpleEnroll` reserves a use of the enrollment token before it asks the CA and takes it back when
`enroll` fails; `serverKeyGen` spends the use after the CA has issued.  The CA is another service:
it issues or refuses, and its answer can get lost on the way (`CaOutcome`).

The tasks of `system` are the requests; any number of them run at once.
-/

namespace Ostrich.Est

open Acme (IssueCertificateRequest)
open Ca (Fault)
open Common Crypto Interleave Text X509

/-! ### Calls -/

/-- What is to be generated for a client. -/
structure ServerKeyGenRequest where
  subject : DistinguishedName
  /-- RSA for the EFS profile, EC P-256 otherwise. -/
  rsa : Bool
  dnsSans : List String
  profileName : String

inductive Call where
  | db (q : Query)
  | newUuid
  /-- `Utc::now`. -/
  | now
  /-- The gRPC call of the CA. -/
  | issueCertificate (request : IssueCertificateRequest)
  /-- `generate_key_pair_for_client`. -/
  | generateKeyPair (request : ServerKeyGenRequest)
  | destroyKey
  | audit (resource action : String) (success : Bool)

/-- The answer of the CA; `issued` says whether it issued a certificate, which the programs do not
see. -/
structure CaReply where
  issued : Bool
  result : Except String String

abbrev Reply : Call → Type
  | .db q => DbReply q.Result
  | .newUuid => Uuid
  | .now => DateTime
  | .issueCertificate _ => CaReply
  | .generateKeyPair _ => Result (List UInt8)
  | .destroyKey | .audit .. => Unit

abbrev EstM := Prog Call Reply Error

/-- Make a call. -/
def await (e : Call) : EstM (Reply e) := Prog.perform e

/-- The value, the error or the panic of a computation. -/
def ofOutcome {α : Type} : Outcome Error α → EstM α
  | .ok a => return a
  | .err e => .fail e
  | .panic | .hang => .fail .Panic

/-- A query, with the error that `f` makes of the one of the database. -/
def query (q : Query) (f : Ca.DbError → Error) : EstM q.Result := do
  match ← await (.db q) with
  | .ok a => return a
  | .error e _ => .fail (f e)

/-! ### Configuration -/

structure EfsKeygenRequest where
  sans : List String := []
  keyStrength : Option ℕ := none
  deriving DecidableEq, Repr

/-- What a label says. -/
structure ParsedLabel where
  profile : String
  keyAlgo : Option String := none
  metadata : List (String × String) := []

/-- The configuration of the service, and what it takes from other crates. -/
structure Env where
  asn1 : Asn1Lib
  certificateFromDer : List UInt8 → Except String X509Certificate
  verifyWithSpki : VerifyWithSpki
  base64Decode : List UInt8 → Option (List UInt8)
  hashToken : String → List UInt8
  /-- The inner provider of sessions. -/
  validateSession : String → Option Account
  identityPolicy : EstIdentityPolicy
  enrollProfile : String
  caConfigured : Bool
  /-- `parse_label` and `profile_name`. -/
  parseLabel : String → Result ParsedLabel
  /-- `select_backend`. -/
  selectBackend : String → Result Unit
  parseUuid : String → Option Uuid
  parseEfsRequest : List UInt8 → Except String EfsKeygenRequest
  /-- The certs-only PKCS#7, or the PKCS#12 of the EFS profile. -/
  encodeResponse : Bool → List UInt8 → Except String (List UInt8)

variable (env : Env)

/-! ### Principals -/

/-- How a client authenticates. -/
inductive Credential where
  /-- A bearer token: an enrollment token or that of a session. -/
  | bearer (token : String)
  /-- A client certificate that maps to an account. -/
  | certificate (account : Account)

/-- The principal of a request. -/
def authenticate : Credential → EstM AuthenticatedUser
  | .certificate account => return account.user
  | .bearer token => do
    match ← await (.db (.findLiveEnrollmentToken (env.hashToken token))) with
    | .ok (some (id, identity, _)) => return tokenPrincipal id identity
    | _ =>
      match env.validateSession token with
      | some account => return account.user
      | none => .fail .Unauthorized

/-- The authorization layer. -/
def authorize (user : AuthenticatedUser) (permission : Permission) : EstM Unit :=
  if anyRoleHasPermission user.roles permission then return ()
  else .fail (.Forbidden "insufficient permissions")

/-- Refuse an identity that the CA would refuse as the requestor. -/
def rejectUnissuableClientId (clientIdentifier resource : String) : EstM Unit :=
  match caRequestor clientIdentifier with
  | .ok _ => return ()
  | .error e => do
    await (.audit resource "client_identifier_not_issuable" false)
    .fail e

/-! ### Checks -/

/-- Audit a failure and end with an error. -/
def deny {α : Type} (resource action : String) (e : Error) : EstM α := do
  await (.audit resource action false)
  .fail e

/-- Decode and parse the CSR of a request body. -/
def decodeCsr (resource parseText : String) (body : List UInt8) :
    EstM (List UInt8 × ParsedCsr) := do
  match env.base64Decode body with
  | none => deny resource "invalid_csr_encoding" (.BadRequest "Invalid or too-short CSR")
  | some csrDer =>
    if csrDer.length < 10 then
      deny resource "invalid_csr_encoding" (.BadRequest "Invalid or too-short CSR")
    else match parseCsr env.asn1 csrDer with
      | .ok parsedCsr => return (csrDer, parsedCsr)
      | .err e => deny resource "csr_parse_failed" (.InvalidCsr (parseText ++ ": " ++ e.display))
      | .panic | .hang => .fail .Panic

/-- Verify the proof of possession. -/
def verifyCsr (resource : String) (parsedCsr : ParsedCsr) : EstM Unit :=
  match verifyCsrSignature env.asn1 env.verifyWithSpki parsedCsr with
  | .ok true => return ()
  | .ok false => deny resource "csr_pop_failed" (.InvalidCsr "Invalid CSR signature")
  | .err e => .fail (.InvalidCsr ("CSR signature verification failed: " ++ e.display))
  | .panic | .hang => .fail .Panic

/-- Authorize the requested certificate identity against the authenticated principal. -/
def identityAuthorized (user : AuthenticatedUser) (cn : Option String) (sans : List String) :
    EstM Bool :=
  if hasRole user .EstEnrollee then return tokenIdentityMatches user.username cn sans
  else match env.identityPolicy with
    | .MatchUsername => return csrIdentityMatchesPrincipal user.username cn sans
    | .AccountAllowList =>
      let asserted := csrAssertedIdentities cn sans
      if asserted.isEmpty then return false
      else do
        let allowed ← query (.listAllowedIdentities user.username) fun e =>
          .Internal ("Failed to load account allow-list: " ++ e.display)
        return allowListed allowed asserted

/-! ### Enrollment tokens -/

/-- Reserve one enrollment-token use before issuance. -/
def reserveEnrollmentTokenIfPresent (user : AuthenticatedUser) : EstM Unit :=
  if hasRole user .EstEnrollee then do
    match ← await (.db (.consumeEnrollmentToken user.id none)) with
    | .ok true => return ()
    | .ok false =>
      .fail (.Forbidden "enrollment token has no remaining uses or has expired")
    | .error e _ => .fail (.Database e)
  else return ()

/-- Compensate a reserved-but-unused token use after issuance fails; a failure is only logged. -/
def refundEnrollmentTokenIfPresent (user : AuthenticatedUser) : EstM Unit :=
  if hasRole user .EstEnrollee then do
    let _ ← await (.db (.refundEnrollmentToken user.id))
    return ()
  else return ()

/-- Record the issued certificate against the use that was reserved. -/
def finalizeEnrollmentTokenIfPresent (user : AuthenticatedUser) (certificateId : Uuid) :
    EstM Unit :=
  if hasRole user .EstEnrollee then do
    let reply ← await (.db (.recordEnrollmentTokenCert user.id certificateId))
    await (.audit "est:enrollment-tokens" "consume_est_token" (reply matches .ok _))
  else return ()

/-- Spend a use after issuance; that there is none left is only logged. -/
def consumeEnrollmentTokenIfPresent (user : AuthenticatedUser) (certificateId : Uuid) :
    EstM Unit :=
  if hasRole user .EstEnrollee then do
    let reply ← await (.db (.consumeEnrollmentToken user.id (some certificateId)))
    await (.audit "est:enrollment-tokens" "consume_est_token" (reply matches .ok true))
  else return ()

/-! ### Issuance -/

/-- The certificate profile to issue an enrollment under. -/
def resolveEnrollProfile (user : AuthenticatedUser) : EstM String :=
  if hasRole user .EstEnrollee then do
    match ← await (.db (.enrollmentTokenProfile user.id)) with
    | .ok (some profile) =>
      return if offerableEstProfiles.contains profile then profile else env.enrollProfile
    | _ => return env.enrollProfile
  else return env.enrollProfile

/-- The profile of a label must be the one that the token pins. -/
def enforceTokenProfilePin (user : AuthenticatedUser) (requestedProfile : String) : EstM Unit :=
  if hasRole user .EstEnrollee then do
    match ← query (.enrollmentTokenProfile user.id) .Database with
    | some pinned =>
      if pinned ≠ requestedProfile then
        .fail (.Forbidden (s!"enrollment token is pinned to profile '{pinned}'; "
          ++ s!"label requests '{requestedProfile}'"))
      else return ()
    | none => return ()
  else return ()

/-- Resolve a request to a CA backend and a certificate profile. -/
def resolveEnrollment (label : Option String) (user : AuthenticatedUser) : EstM ParsedLabel :=
  match label with
  | none =>
    if env.caConfigured then do
      let profile ← resolveEnrollProfile env user
      return { profile }
    else .fail (.Internal "EST CA integration not configured")
  | some raw => do
    let parsed ← Prog.ofExcept (env.parseLabel raw)
    enforceTokenProfilePin user parsed.profile
    Prog.ofExcept (env.selectBackend raw)
    return parsed

/-- Create an enrollment row. -/
def createEnrollment (clientIdentifier enrollmentType : String) (csrDer : List UInt8)
    (what : String) : EstM EstEnrollment := do
  let id ← await .newUuid
  let now ← await .now
  query (.createEnrollment id clientIdentifier enrollmentType csrDer "pending" now) fun e =>
    .Internal ("Failed to create " ++ what ++ ": " ++ e.display)

/-- `EstCaClient::enroll`: one attempt, since issuance is not idempotent. -/
def enroll (enrollmentId : Uuid) (csrDer : List UInt8) (clientId profileName : String)
    (extraMetadata : List (String × String)) : EstM Uuid := do
  let request ← ofOutcome
    (enrollRequest env.asn1 enrollmentId csrDer clientId profileName extraMetadata)
  match (← await (.issueCertificate request)).result with
  | .error e => .fail (.Internal ("CA service call failed: " ++ e))
  | .ok text =>
    match env.parseUuid text with
    | none => .fail (.Internal "Invalid certificate ID from CA")
    | some certificateId =>
      let now ← await .now
      let _ ← query (.markEnrollmentIssued enrollmentId certificateId profileName now) .Database
      return certificateId

/-- What a client gets. -/
structure Response where
  certificateId : Uuid
  body : List UInt8

/-- Load the issued certificate and encode the response. -/
def respond (efs : Bool) (certificateId : Uuid) (missing : String) (f : Ca.DbError → Error) :
    EstM Response := do
  match ← query (.findCertificateById certificateId) f with
  | none => .fail (.Internal missing)
  | some certificate =>
    match env.encodeResponse efs certificate.derEncoded with
    | .ok body => return { certificateId, body }
    | .error e => .fail (.Internal e)

/-- The end of a failed issuance: an error is audited, a panic is not. -/
def issuanceFailed {α : Type} (e : Error) (action : String) (compensate : EstM Unit) : EstM α :=
  if e = .Panic then .fail .Panic
  else do
    compensate
    await (.audit "est:enrollment" action false)
    .fail e

/-- Simple enrollment, once the CSR is accepted. -/
def issueSimple (user : AuthenticatedUser) (label : Option String) (csrDer : List UInt8) :
    EstM Response := do
  let enrollment ← createEnrollment user.username "simple-enroll" csrDer "enrollment"
  match ← Prog.attempt (resolveEnrollment env label user) with
  | .error e => issuanceFailed e "simpleenroll" (return ())
  | .ok resolved =>
    match ← Prog.attempt (reserveEnrollmentTokenIfPresent user) with
    | .error e => issuanceFailed e "simpleenroll" (return ())
    | .ok () =>
      match ← Prog.attempt
        (enroll env enrollment.id csrDer user.username resolved.profile resolved.metadata) with
      | .error e => issuanceFailed e "simpleenroll" (refundEnrollmentTokenIfPresent user)
      | .ok certificateId =>
        finalizeEnrollmentTokenIfPresent user certificateId
        let response ← respond env false certificateId "Issued certificate not found" .Database
        await (.audit "est:enrollment" "simpleenroll" true)
        return response

/-- The common name of the subject of a CSR, if it can be read. -/
def csrCommonName (csrDer : List UInt8) : EstM (Option String) :=
  match parseCsrSubjectDn env.asn1 csrDer with
  | .ok dn => return dn.commonName
  | .err _ => return none
  | .panic | .hang => .fail .Panic

/-- Simple enrollment. -/
def simpleEnroll (user : AuthenticatedUser) (label : Option String) (body : List UInt8) :
    EstM Response := do
  rejectUnissuableClientId user.username "est:enroll"
  let (csrDer, parsedCsr) ← decodeCsr env "est:enroll" "Failed to parse CSR" body
  verifyCsr env "est:enroll" parsedCsr
  let cn ← csrCommonName env csrDer
  if ← identityAuthorized env user cn parsedCsr.subjectAlternativeNames then
    issueSimple env user label csrDer
  else
    deny "est:enroll" "identity_not_bound"
      (.Forbidden "CSR subject CN or a SAN must match the authenticated client identity")

/-- The loop over the prior enrollments of a client: does a certificate match, was there one, and
the broadest profile of those that match. -/
def priorCertificates (parsedCsr : ParsedCsr) : List EstEnrollment → Bool × Bool × Option String →
    EstM (Bool × Bool × Option String)
  | [], seen => return seen
  | enrollment :: rest, (subjectMatches, had, profile) =>
    match enrollment.certificateId with
    | none => priorCertificates parsedCsr rest (subjectMatches, had, profile)
    | some certId => do
      let found ← query (.findCertificateById certId) fun e =>
        .Internal ("Failed to load prior certificate: " ++ e.display)
      match found.map fun row => parseCertificate env.certificateFromDer row.derEncoded with
      | some (.ok prior) =>
        if renews parsedCsr prior then
          priorCertificates parsedCsr rest
            (true, true, broadestEstProfile profile enrollment.profileName)
        else priorCertificates parsedCsr rest (subjectMatches, true, profile)
      | _ => priorCertificates parsedCsr rest (subjectMatches, true, profile)

/-- Simple re-enrollment, once the CSR is accepted. -/
def issueRenewal (user : AuthenticatedUser) (label : Option String) (csrDer : List UInt8)
    (priorProfile : Option String) : EstM Response := do
  let enrollment ← createEnrollment user.username "simple-reenroll" csrDer "re-enrollment"
  match ← Prog.attempt (resolveEnrollment env label user) with
  | .error e => issuanceFailed e "simplereenroll" (return ())
  | .ok resolved =>
    let profile := (priorProfile.filter (offerableEstProfiles.contains ·)).getD resolved.profile
    match ← Prog.attempt
      (enroll env enrollment.id csrDer user.username profile resolved.metadata) with
    | .error e => issuanceFailed e "simplereenroll" (return ())
    | .ok certificateId =>
      let response ← respond env false certificateId "Re-issued certificate not found" .Database
      await (.audit "est:enrollment" "simplereenroll" true)
      return response

/-- Simple re-enrollment. -/
def simpleReenroll (user : AuthenticatedUser) (label : Option String) (body : List UInt8) :
    EstM Response := do
  rejectUnissuableClientId user.username "est:reenroll"
  let (csrDer, parsedCsr) ← decodeCsr env "est:reenroll" "Failed to parse CSR" body
  verifyCsr env "est:reenroll" parsedCsr
  let priorEnrollments ← query (.listEnrollmentsByClient user.username) fun e =>
    .Internal ("Failed to load prior enrollments: " ++ e.display)
  let (subjectMatches, had, priorProfile) ←
    priorCertificates env parsedCsr priorEnrollments (false, false, none)
  if subjectMatches then issueRenewal env user label csrDer priorProfile
  else
    let reason := if had
      then "CSR subject/SANs do not match any certificate previously issued to this client"
      else "no existing certificate to renew for this client"
    deny "est:reenroll" "reenroll_subject_mismatch"
      (.Forbidden s!"re-enrollment denied: {reason} (RFC 7030 §4.2.2)")

/-! ### Server-side key generation -/

/-- Is the content type JSON? -/
def isJson (contentType : Option String) : Bool :=
  match contentType with
  | none => false
  | some text => toAsciiLowercase (trim ((splitChar ';' text).headD "")) = "application/json"

/-- The subject and the names of a structured request: the subject is the authenticated
identity. -/
def efsNames (clientIdentifier : String) (efs : Bool) (body : List UInt8) :
    EstM (DistinguishedName × List String) :=
  if !efs then
    deny "est:serverkeygen" "structured_input_non_efs" (.BadRequest
      "structured (JSON) server-side key generation is only supported for the EFS profile")
  else match env.parseEfsRequest body with
    | .error e => deny "est:serverkeygen" "invalid_efs_request"
        (.BadRequest ("invalid EFS server-keygen request: " ++ e))
    | .ok req =>
      match req.keyStrength with
      | some bits =>
        if bits ≠ 2048 then
          deny "est:serverkeygen" "unsupported_key_strength" (.BadRequest
            s!"EFS server-side key generation supports only RSA-2048 (requested {bits})")
        else return ({ commonName := some clientIdentifier }, req.sans)
      | none => return ({ commonName := some clientIdentifier }, req.sans)

/-- The subject and the names of a CSR. -/
def csrNames (body : List UInt8) : EstM (DistinguishedName × List String) := do
  let (csrDer, parsed) ←
    decodeCsr env "est:serverkeygen" "Failed to parse serverkeygen CSR" body
  match parseCsrSubjectDn env.asn1 csrDer with
  | .ok subject => return (subject, parsed.subjectAlternativeNames)
  | .err e => .fail (.InvalidCsr ("Failed to parse CSR subject: " ++ e.display))
  | .panic | .hang => .fail .Panic

/-- Server-side key generation, once the names are accepted. -/
def issueServerKey (user : AuthenticatedUser) (resolved : ParsedLabel) (efs : Bool)
    (subject : DistinguishedName) (requestedSans : List String) : EstM Response := do
  let dnsSans := requestedSans.filterMap (stripPrefix · "DNS:")
  let generated ← await
    (.generateKeyPair { subject, rsa := efs, dnsSans, profileName := resolved.profile })
  let csrDer ← Prog.ofExcept generated
  let enrollment ← createEnrollment user.username "server-keygen" csrDer "enrollment"
  let issued ← Prog.attempt
    (enroll env enrollment.id csrDer user.username resolved.profile resolved.metadata)
  match issued with
  | .error e =>
    if e = .Panic then .fail .Panic
    else do
      await .destroyKey
      await (.audit "est:enrollment" "serverkeygen" false)
      .fail e
  | .ok certificateId =>
    await .destroyKey
    consumeEnrollmentTokenIfPresent user certificateId
    let response ← respond env efs certificateId "Issued certificate not found" fun e =>
      .Internal ("Failed to load issued certificate: " ++ e.display)
    await (.audit "est:enrollment" "serverkeygen" true)
    return response

/-- Server-side key generation. -/
def serverKeyGen (user : AuthenticatedUser) (label contentType : Option String)
    (body : List UInt8) : EstM Response := do
  rejectUnissuableClientId user.username "est:serverkeygen"
  match ← Prog.attempt (resolveEnrollment env label user) with
  | .error e =>
    if e = .Panic then .fail .Panic else deny "est:serverkeygen" "ca_not_configured" e
  | .ok resolved =>
    let efs := decide (resolved.profile = efsProfileName)
    match resolved.keyAlgo with
    | some algo => deny "est:serverkeygen" "serverkeygen_keyalgo_unsupported" (.BadRequest
        ("server-side key generation does not support a label-requested key algorithm "
          ++ s!"'{algo}' yet"))
    | none =>
      let (subject, requestedSans) ←
        if isJson contentType then efsNames env user.username efs body else csrNames env body
      if ← identityAuthorized env user subject.commonName requestedSans then
        issueServerKey env user resolved efs subject requestedSans
      else
        deny "est:serverkeygen" "identity_not_bound"
          (.Forbidden "subject CN or a SAN must match the authenticated client identity")

/-! ### The system -/

inductive Task where
  | simpleEnroll (credential : Credential) (label : Option String) (body : List UInt8)
  | simpleReenroll (credential : Credential) (label : Option String) (body : List UInt8)
  | serverKeyGen (credential : Credential) (label contentType : Option String)
      (body : List UInt8)

/-- The programs of the tasks. -/
def body : Task → EstM Response
  | .simpleEnroll credential label body => do
    let user ← authenticate env credential
    authorize user .SubmitRequest
    simpleEnroll env user label body
  | .simpleReenroll credential label body => do
    let user ← authenticate env credential
    authorize user .RenewCertificate
    simpleReenroll env user label body
  | .serverKeyGen credential label contentType body => do
    let user ← authenticate env credential
    authorize user .SubmitRequest
    serverKeyGen env user label contentType body

/-- What the CA does with a request: it refuses, or it issues and its answer may get lost. -/
inductive CaOutcome where
  | refused (text : String)
  | issued (certificate : CertificateRow) (answer : Except String String)

/-- What the tasks do not control. -/
structure Choice where
  fault : Fault
  now : DateTime
  uuid : Uuid
  ca : CaOutcome
  /-- The CSR for the generated key. -/
  key : Result (List UInt8)

/-- Answer a call. -/
def exec (e : Call) (c : Choice) (s : Store) : Reply e × Store :=
  match e with
  | .db q => q.exec c.fault c.now s
  | .newUuid => (c.uuid, s)
  | .now => (c.now, s)
  | .issueCertificate _ =>
    match c.ca with
    | .refused text => (⟨false, .error text⟩, s)
    | .issued certificate answer =>
      (⟨true, answer⟩, { s with certificates := s.certificates ++ [certificate] })
  | .generateKeyPair _ => (c.key, s)
  | .destroyKey => ((), s)
  | .audit .. => ((), s)

/-- The EST service. -/
def system : System Call Reply Error Response Task Store Choice where
  body := body env
  exec := exec
  spawned := fun _ => none

abbrev EstEvent := Event Call Reply Error Response Task
abbrev EstWorld := World Call Reply Error Response Task Store
abbrev EstConfig := Config Call Reply Error Response Task Store

end Ostrich.Est
