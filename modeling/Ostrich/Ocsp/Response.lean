import Ostrich.Ocsp.Request

/-!
# OCSP responses (`ostrich-ocsp/src/response.rs`)

`encodeTbsResponseData` makes the bytes that are signed.  The serial number of a CertID is encoded
from its magnitude.
-/

namespace Ostrich.Ocsp

open DerUtil

inductive ResponseStatus where
  | Successful
  | MalformedRequest
  | InternalError
  | TryLater
  | SigRequired
  | Unauthorized
  deriving DecidableEq, Repr

/-- Certificate Status. -/
inductive CertStatus where
  | Good
  | Revoked (revocationTime : DateTime) (revocationReason : Option UInt8)
  | Unknown
  deriving DecidableEq, Repr

/-- Single OCSP response for one certificate. -/
structure SingleResponse where
  serialNumber : List UInt8
  issuerNameHash : List UInt8
  issuerKeyHash : List UInt8
  /-- Dotted OID. -/
  hashAlgorithm : String
  certStatus : CertStatus
  thisUpdate : DateTime
  nextUpdate : Option DateTime
  deriving DecidableEq, Repr

/-- Complete OCSP response. -/
structure OcspResponse where
  responseStatus : ResponseStatus
  responses : List SingleResponse
  /-- The bytes that were signed. -/
  tbsResponseData : List UInt8
  signature : List UInt8
  signatureAlgorithm : List UInt8
  signingCert : List UInt8
  producedAt : DateTime
  nonce : Option (List UInt8)
  deriving DecidableEq, Repr

/-- OBJECT IDENTIFIER from dotted string. -/
def oid (dotted : String) : Except Error (List UInt8) :=
  match objectIdentifier dotted with
  | some content => .ok (tlv 0x06 content)
  | none => .error (.InternalError ("Invalid OID '" ++ dotted ++ "'"))

/-- Encode CertID, echoing the request's CertID fields. -/
def encodeCertId (resp : SingleResponse) : Except Error (List UInt8) := do
  let algId ← oid resp.hashAlgorithm
  return seq (seq (algId ++ null) ++ octetString resp.issuerNameHash
    ++ octetString resp.issuerKeyHash ++ unsignedInteger resp.serialNumber)

/-- Encode the CertStatus CHOICE. -/
def encodeCertStatus : CertStatus → List UInt8
  | .Good => tlv 0x80 []
  | .Revoked revocationTime revocationReason =>
    tlv 0xA1 (generalizedTime revocationTime
      ++ match revocationReason with
        | some reason => tlv 0xA0 (enumerated reason)
        | none => [])
  | .Unknown => tlv 0x82 []

/-- Encode a SingleResponse. -/
def encodeSingleResponse (resp : SingleResponse) : Except Error (List UInt8) := do
  let certId ← encodeCertId resp
  return seq (certId ++ encodeCertStatus resp.certStatus ++ generalizedTime resp.thisUpdate
    ++ match resp.nextUpdate with
      | some nextUpdate => tlv 0xA0 (generalizedTime nextUpdate)
      | none => [])

/-- The response extensions: the nonce that is echoed. -/
def encodeNonce : Option (List UInt8) → Except Error (List UInt8)
  | none => .ok []
  | some nonce => do
    let id ← oid "1.3.6.1.5.5.7.48.1.2"
    return tlv 0xA1 (seq (seq (id ++ octetString nonce)))

/-- Encode the to-be-signed ResponseData. -/
def encodeTbsResponseData (responderNameDer : List UInt8) (producedAt : DateTime)
    (responses : List SingleResponse) (nonce : Option (List UInt8)) :
    Except Error (List UInt8) := do
  let responsesContent ← responses.mapM encodeSingleResponse
  let extensions ← encodeNonce nonce
  return seq (tlv 0xA1 responderNameDer ++ generalizedTime producedAt
    ++ seq responsesContent.flatten ++ extensions)

end Ostrich.Ocsp
