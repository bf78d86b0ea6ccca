import Ostrich.Acme.Types
import Ostrich.X509.Csr

/-!
# The issuance request (`ostrich-acme/src/ca_integration.rs`)

`issueRequest` is the part of `AcmeCaClient::finalize_order` that builds the gRPC request from the
CSR: the SANs as the CSR parser printed them (`convertSansToProto`) and the subject of the CSR,
or, if that is empty, a common name taken from the DNS SANs (`resolveProtoSubject`).
-/

namespace Ostrich.Acme

open Text X509

/-- `DistinguishedName` of `ca_service.proto`. -/
structure ProtoDistinguishedName where
  commonName : Option String := none
  organization : Option String := none
  organizationalUnit : Option String := none
  locality : Option String := none
  stateOrProvince : Option String := none
  country : Option String := none
  serialNumber : Option String := none
  deriving DecidableEq, Repr

/-- `SubjectAltName` of `ca_service.proto`. -/
inductive ProtoSubjectAltName where
  | DnsName (dns : String)
  | Rfc822Name (email : String)
  | Uri (uri : String)
  | IpAddress (ip : String)
  | DirectoryName (dn : String)
  deriving DecidableEq, Repr

/-- `IssueCertificateRequest` of `ca_service.proto`. -/
structure IssueCertificateRequest where
  profileName : String
  subject : ProtoDistinguishedName
  subjectAltNames : List ProtoSubjectAltName
  publicKey : List UInt8
  requestor : String
  metadata : List (String × String)
  csrDer : List UInt8
  requestId : String
  deriving DecidableEq, Repr

/-- The SAN that a text stands for; other kinds of names are skipped. -/
def protoSan (san : String) : Option ProtoSubjectAltName :=
  match stripPrefix san "DNS:" with
  | some dns => some (.DnsName dns)
  | none => match stripPrefix san "email:" with
    | some email => some (.Rfc822Name email)
    | none => match stripPrefix san "URI:" with
      | some uri => some (.Uri uri)
      | none => match stripPrefix san "IP:" with
        | some ip => some (.IpAddress ip)
        | none => (stripPrefix san "DirName:").map .DirectoryName

/-- Convert parsed SANs to the form of the request. -/
def convertSansToProto (sans : List String) : List ProtoSubjectAltName := sans.filterMap protoSan

def ubCommonName : ℕ := 64

/-- First DNS SAN usable as a common name (`SIZE (1..64)`), if any. -/
def derivedCnFromSans (sans : List String) : Option String :=
  (sans.filterMap fun san => stripPrefix san "DNS:").find? fun dns =>
    1 ≤ dns.utf8ByteSize && dns.utf8ByteSize ≤ ubCommonName

/-- `map_err(|e| Error::BadCsr(format!("{}: {}", what, e)))`. -/
def badCsr {α : Type} (what : String) : Except String α → Result α
  | .ok a => .ok a
  | .error e => .error (.BadCsr (what ++ ": " ++ e))

section

variable (lib : Asn1Lib)

/-- Convert an X.509 name: encode it, read it back with x509-parser, take the fields. -/
def convertSubjectToProto (name : CertName) : Result ProtoDistinguishedName := do
  let nameDer ← badCsr "Failed to encode subject DN" name.der
  let parsedName ← badCsr "Failed to parse subject DN" (lib.nameFromDer nameDer)
  let dn ← badCsr "Failed to extract DN attributes"
    ((parseDistinguishedName parsedName).mapError X509.Error.display)
  return { commonName := dn.commonName, organization := dn.organization,
           organizationalUnit := dn.organizationalUnit, locality := dn.locality,
           stateOrProvince := dn.stateOrProvince, country := dn.country,
           serialNumber := dn.serialNumber }

/-- The subject of the request: for an empty subject DN a common name derived from the SANs. -/
def resolveProtoSubject (subject : CertName) (sans : List String) :
    Result ProtoDistinguishedName :=
  match subject.isEmpty, derivedCnFromSans sans with
  | true, some cn => .ok { commonName := some cn }
  | _, _ => convertSubjectToProto lib subject

/-- `parse_csr` with its error as a `BadCsr`. -/
def parseCsrFor (what : String) (der : List UInt8) : Outcome Error ParsedCsr :=
  match parseCsr lib der with
  | .ok csr => .ok csr
  | .err e => .err (.BadCsr (what ++ ": " ++ e.display))
  | .panic => .panic
  | .hang => .hang

/-- The request that `AcmeCaClient::finalize_order` sends. -/
def issueRequest (orderId : Uuid) (csrDer : List UInt8) (accountId : String) :
    Outcome Error IssueCertificateRequest := do
  let csr ← ofExcept (badCsr "Failed to parse CSR" (lib.certReqFromDer csrDer))
  let parsedCsr ← parseCsrFor lib "Failed to parse CSR for SANs" csrDer
  let subjectAltNames := convertSansToProto parsedCsr.subjectAlternativeNames
  let protoSubject ←
    ofExcept (resolveProtoSubject lib csr.subject parsedCsr.subjectAlternativeNames)
  let publicKeyDer ← ofExcept (badCsr "Failed to encode public key" csr.publicKeyDer)
  return { profileName := "acme-default", subject := protoSubject, subjectAltNames,
           publicKey := publicKeyDer, requestor := "acme::" ++ accountId,
           metadata := [("acme_order_id", orderId.toString), ("acme_account_id", accountId)],
           csrDer, requestId := orderId.toString }

end

end Ostrich.Acme
