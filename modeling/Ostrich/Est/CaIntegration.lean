import Ostrich.Est.Types

/-!
# The issuance request (`ostrich-est/src/ca_integration.rs`)

`enrollRequest` is the part of `EstCaClient::enroll` that builds the gRPC request: it reads the CSR
a second time, takes the seven modelled fields of its subject and the texts of its SANs.
-/

namespace Ostrich.Est

open Acme (ProtoDistinguishedName ProtoSubjectAltName IssueCertificateRequest protoSan)
open Text X509

/-- Message for a client identifier that the CA would refuse as requestor. -/
def clientIdNotIssuable : String :=
  "the EST client identifier cannot be used for certificate issuance: it must be 1 to 250 "
    ++ "printable ASCII characters (no spaces or control characters)"

/-- `MAX_REQUESTOR_LEN`. -/
def maxRequestorLen : ℕ := 255

/-- Printable ASCII. -/
def isAllowedRequestorByte (b : UInt8) : Bool := 0x21 ≤ b && b ≤ 0x7E

/-- The requestor of a client, checked with the rule that the CA applies. -/
def caRequestor (clientId : String) : Result String :=
  let requestor := "est::" ++ clientId
  if clientId = "" ∨ maxRequestorLen < requestor.utf8ByteSize
      ∨ (utf8 clientId).all isAllowedRequestorByte = false then
    .error (.Forbidden clientIdNotIssuable)
  else .ok requestor

/-- Convert parsed SANs to the form of the request. -/
def convertSansToProto (sans : List String) : List ProtoSubjectAltName := sans.filterMap protoSan

/-- `map_err(|e| Error::InvalidCsr(format!("{}: {}", what, e)))`. -/
def invalidCsr {α : Type} (what : String) : Except String α → Result α
  | .ok a => .ok a
  | .error e => .error (.InvalidCsr (what ++ ": " ++ e))

variable (lib : Asn1Lib)

/-- Convert an X.509 name: encode it, read it back with x509-parser, take the fields. -/
def convertSubjectToProto (name : CertName) : Result ProtoDistinguishedName := do
  let nameDer ← invalidCsr "Failed to encode subject DN" name.der
  let parsedName ← invalidCsr "Failed to parse subject DN" (lib.nameFromDer nameDer)
  let dn ← invalidCsr "Failed to extract DN attributes"
    ((parseDistinguishedName parsedName).mapError X509.Error.display)
  return { commonName := dn.commonName, organization := dn.organization,
           organizationalUnit := dn.organizationalUnit, locality := dn.locality,
           stateOrProvince := dn.stateOrProvince, country := dn.country,
           serialNumber := dn.serialNumber }

/-- `parse_csr` with its error as an `InvalidCsr`. -/
def parseCsrFor (what : String) (der : List UInt8) : Outcome Error ParsedCsr :=
  match parseCsr lib der with
  | .ok csr => .ok csr
  | .err e => .err (.InvalidCsr (what ++ ": " ++ e.display))
  | .panic => .panic
  | .hang => .hang

/-- The request that `EstCaClient::enroll` sends. -/
def enrollRequest (enrollmentId : Uuid) (csrDer : List UInt8) (clientId profileName : String)
    (extraMetadata : List (String × String)) : Outcome Error IssueCertificateRequest := do
  let csr ← ofExcept (invalidCsr "Failed to parse CSR" (lib.certReqFromDer csrDer))
  let subject ← ofExcept (convertSubjectToProto lib csr.subject)
  let parsedCsr ← parseCsrFor lib "Failed to parse CSR for SANs" csrDer
  let publicKey ← ofExcept (invalidCsr "Failed to encode public key" csr.publicKeyDer)
  let requestor ← ofExcept (caRequestor clientId)
  return { profileName, subject,
           subjectAltNames := convertSansToProto parsedCsr.subjectAlternativeNames, publicKey,
           requestor, metadata := [("est_enrollment_id", enrollmentId.toString),
             ("est_client_id", clientId)] ++ extraMetadata,
           csrDer, requestId := enrollmentId.toString }

end Ostrich.Est
