import Ostrich.Est.CaIntegration

/-!
# The names of an issuance request

`EstCaClient::enroll` reads the CSR with two decoders: the subject with the `der` crate, the SANs
as the handlers do.  `RequestOf` says what a request is made of.
-/

namespace Ostrich.Est

open Acme (IssueCertificateRequest ProtoDistinguishedName)
open X509

variable {lib : Asn1Lib} {csrDer : List UInt8}

theorem parseCsrFor_eq_ok {what : String} {csr : ParsedCsr}
    (h : parseCsrFor lib what csrDer = .ok csr) : parseCsr lib csrDer = .ok csr := by
  unfold parseCsrFor at h
  split at h
  · rw [← Outcome.ok.inj h]
    assumption
  · cases h
  · cases h
  · cases h

/-- The fields of a name in the form of the request. -/
def protoName (dn : DistinguishedName) : ProtoDistinguishedName :=
  { commonName := dn.commonName, organization := dn.organization,
    organizationalUnit := dn.organizationalUnit, locality := dn.locality,
    stateOrProvince := dn.stateOrProvince, country := dn.country,
    serialNumber := dn.serialNumber }

/-- What a request is made of: the CSR as the `der` crate reads it, the name that its subject is
read back as, the fields of the name, and the CSR as the handlers read it. -/
structure RequestOf (lib : Asn1Lib) (csrDer : List UInt8) (csr : CertReq) (name : X509Name)
    (dn : DistinguishedName) (parsedCsr : ParsedCsr) (request : IssueCertificateRequest) :
    Prop where
  certReq : lib.certReqFromDer csrDer = .ok csr
  readBack : ∃ nameDer, csr.subject.der = .ok nameDer ∧ lib.nameFromDer nameDer = .ok name
  fields : parseDistinguishedName name = .ok dn
  subject : request.subject = protoName dn
  parsed : parseCsr lib csrDer = .ok parsedCsr
  sans : request.subjectAltNames = convertSansToProto parsedCsr.subjectAlternativeNames

end Ostrich.Est
