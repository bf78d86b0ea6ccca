import Ostrich.Ca.Types
import Ostrich.Ocsp.DerUtil

/-!
# OCSP requests (`ostrich-ocsp/src/request.rs`)

`fromDer` reads the first CertID of a request, and the nonce among its extensions.  The version, the
name of the requestor and the signature are skipped.
-/

namespace Ostrich.Ocsp

open DerUtil

inductive Error where
  | InvalidRequest (message : String)
  | MalformedRequest
  | InternalError (message : String)
  | SigningError (message : String)
  | Database (e : Ca.DbError)
  /-- The request ended in a panic. -/
  | Panic
  deriving DecidableEq, Repr

inductive HashAlgorithm where
  | Sha1
  | Sha256
  | Sha384
  | Sha512
  deriving DecidableEq, Repr

/-- The dotted OID of a hash algorithm. -/
def HashAlgorithm.oid : HashAlgorithm → String
  | .Sha1 => "1.3.14.3.2.26"
  | .Sha256 => "2.16.840.1.101.3.4.2.1"
  | .Sha384 => "2.16.840.1.101.3.4.2.2"
  | .Sha512 => "2.16.840.1.101.3.4.2.3"

/-- A parsed request. -/
structure OcspRequest where
  serialNumber : List UInt8
  issuerNameHash : List UInt8
  issuerKeyHash : List UInt8
  hashAlgorithm : HashAlgorithm
  nonce : Option (List UInt8)
  deriving DecidableEq, Repr

/-! ### Parsing -/

/-- Read one TLV with this tag: its content, and what follows. -/
def expect (tag : UInt8) (input : List UInt8) : Except Error (List UInt8 × List UInt8) :=
  match readTlv input with
  | some (t, content, rest) => if t = tag then .ok (content, rest) else .error .MalformedRequest
  | none => .error .MalformedRequest

/-- Skip an element with this tag if there is one. -/
def skip (tag : UInt8) (input : List UInt8) : List UInt8 :=
  match readTlv input with
  | some (t, _, rest) => if t = tag then rest else input
  | none => input

/-- Convert OID to HashAlgorithm. -/
def oidToHashAlgorithm (oid : String) : Except Error HashAlgorithm :=
  match [HashAlgorithm.Sha1, .Sha256, .Sha384, .Sha512].find? fun a => a.oid = oid with
  | some algorithm => .ok algorithm
  | none => .error (.InvalidRequest ("Unsupported hash algorithm OID: " ++ oid))

/-- id-pkix-ocsp-nonce, as content octets. -/
def nonceOid : List UInt8 := [0x2B, 0x06, 0x01, 0x05, 0x05, 0x07, 0x30, 0x01, 0x02]

/-- One extension: its OID and value, and what follows. -/
def readExtension (cursor : List UInt8) : Except Error (List UInt8 × List UInt8 × List UInt8) := do
  let (extContent, rest) ← expect 0x30 cursor
  let (extOid, afterOid) ← expect 0x06 extContent
  -- the optional critical BOOLEAN
  let (extnValue, _) ← expect 0x04 (skip 0x01 afterOid)
  return (extOid, extnValue, rest)

/-- Look for the nonce among the extensions; each takes an octet at least, so that the length of
the input is enough `fuel`. -/
def scanExtensions : ℕ → List UInt8 → Except Error (Option (List UInt8))
  | 0, _ => .ok none
  | fuel + 1, cursor =>
    if cursor.isEmpty then .ok none
    else do
      let (extOid, extnValue, rest) ← readExtension cursor
      if extOid = nonceOid then
        if extnValue.isEmpty ∨ 32 < extnValue.length then .error .MalformedRequest
        else return some extnValue
      else scanExtensions fuel rest

/-- Scan an Extensions SEQUENCE for the nonce. -/
def findNonceExtension (extensionsTlv : List UInt8) : Except Error (Option (List UInt8)) := do
  let (cursor, _) ← expect 0x30 extensionsTlv
  scanExtensions cursor.length cursor

/-- Parse a request from DER-encoded bytes; `oidText` gives the dotted form of the content octets of
an OID. -/
def fromDer (oidText : List UInt8 → Option String) (input : List UInt8) :
    Except Error OcspRequest := do
  let (ocspContent, _) ← expect 0x30 input
  let (tbsContent, _) ← expect 0x30 ocspContent
  let (requestList, afterList) ← expect 0x30 (skip 0xA1 (skip 0xA0 tbsContent))
  let (requestContent, _) ← expect 0x30 requestList
  let (certId, _) ← expect 0x30 requestContent
  let (algId, afterAlg) ← expect 0x30 certId
  let (oidBytes, _) ← expect 0x06 algId
  match oidText oidBytes with
  | none => .error .MalformedRequest
  | some oid =>
    let hashAlgorithm ← oidToHashAlgorithm oid
    let (issuerNameHash, afterName) ← expect 0x04 afterAlg
    let (issuerKeyHash, afterKey) ← expect 0x04 afterName
    let (serialNumber, _) ← expect 0x02 afterKey
    if serialNumber.isEmpty then .error .MalformedRequest
    else
      match readTlv afterList with
      | some (0xA2, extExplicit, _) =>
        let nonce ← findNonceExtension extExplicit
        return { serialNumber, issuerNameHash, issuerKeyHash, hashAlgorithm, nonce }
      | _ => return { serialNumber, issuerNameHash, issuerKeyHash, hashAlgorithm, nonce := none }

end Ostrich.Ocsp
