import Ostrich.Crypto.Algorithm
import Ostrich.Lib.Der
import Ostrich.Tamp.Types

/-!
# CMS envelopes of TAMP messages (`ostrich-tamp/src/cms.rs`, `ostrich-x509/src/signing.rs`)

A message travels in a `SignedData` with one signer.  The signature is over the signed attributes:
the content type, and the digest of the content.  The crates that encode and decode ASN.1, the hash
and the signature verification are parameters (`Codec`).
-/

namespace Ostrich.Tamp

open Crypto

/-! ### Structures -/

/-- The encoding of any value. -/
abbrev Any : Type := List UInt8

structure Attribute where
  oid : ObjectIdentifier
  values : List Any
  deriving DecidableEq, Repr

inductive SignerIdentifier where
  | IssuerAndSerialNumber (der : List UInt8)
  | SubjectKeyIdentifier (ski : List UInt8)
  deriving DecidableEq, Repr

structure SignerInfo where
  sid : SignerIdentifier
  signedAttrs : Option (List Attribute)
  signatureAlgorithm : ObjectIdentifier
  signature : List UInt8
  unsignedAttrs : Option (List Attribute)
  deriving DecidableEq, Repr

structure SignedData where
  econtentType : ObjectIdentifier
  econtent : Option Any
  signerInfos : List SignerInfo
  deriving DecidableEq, Repr

structure ContentInfo where
  contentType : ObjectIdentifier
  content : Any
  deriving DecidableEq, Repr

/-- What the crates `der`, `cms` and `x509_cert` encode and decode, SHA-256, and
`verify_with_spki`. -/
structure Codec where
  contentInfoFromDer : List UInt8 → Except String ContentInfo
  contentInfoToDer : ContentInfo → Except String (List UInt8)
  decodeSignedData : Any → Except String SignedData
  encodeSignedData : SignedData → Except String Any
  decodeOctets : Any → Except String (List UInt8)
  encodeOctets : List UInt8 → Except String Any
  encodeOid : ObjectIdentifier → Except String Any
  /-- `SetOfVec::insert`. -/
  insertAttribute : List Attribute → Attribute → Except String (List Attribute)
  attributesFromDer : List UInt8 → Except String (List Attribute)
  attributesToDer : List Attribute → Except String (List UInt8)
  sha256 : List UInt8 → List UInt8
  verifyWithSpki : VerifyWithSpki

namespace Cms

def idContentType : ObjectIdentifier := "1.2.840.113549.1.9.3"
def idMessageDigest : ObjectIdentifier := "1.2.840.113549.1.9.4"

/-- An error of a crate, with its context. -/
def failing {α : Type} (context : String) : Except String α → Except Error α
  | .ok a => .ok a
  | .error e => .error (.Cms s!"{context}: {e}")

/-- `?` on a result of the crate `der`. -/
def asn1 {α : Type} : Except String α → Except Error α
  | .ok a => .ok a
  | .error e => .error (.Asn1 e)

/-- `?` on a result of the crypto crate. -/
def crypto {α : Type} : Except String α → Except Error α
  | .ok a => .ok a
  | .error e => .error (.Crypto e)

/-- An attribute with one value. -/
def attributeOf (oid : ObjectIdentifier) (value : Any) : Attribute := ⟨oid, [value]⟩

variable (codec : Codec)

/-! ### Signing -/

/-- Build the signed attributes. -/
def buildSignedAttrs (contentType : ObjectIdentifier) (content : List UInt8) :
    Except Error (List Attribute) := do
  let ctValue ← failing "content-type any" (codec.encodeOid contentType)
  let mdValue ← failing "message-digest any" (codec.encodeOctets (codec.sha256 content))
  let attrs ← failing "insert content-type"
    (codec.insertAttribute [] (attributeOf idContentType ctValue))
  failing "insert message-digest"
    (codec.insertAttribute attrs (attributeOf idMessageDigest mdValue))

/-- Build the unsigned attributes. -/
def buildUnsignedAttrs (attrs : List (ObjectIdentifier × Any)) :
    Except Error (Option (List Attribute)) :=
  if attrs.isEmpty then .ok none
  else do
    let inserted ← attrs.foldlM (fun inserted attr => failing "insert unsigned attr"
      (codec.insertAttribute inserted (attributeOf attr.1 attr.2))) []
    return some inserted

/-- What is signed: the encoding of the signed attributes. -/
def tbs (contentType : ObjectIdentifier) (content : List UInt8) : Except Error (List UInt8) := do
  let signedAttrs ← buildSignedAttrs codec contentType content
  failing "encode signed attrs" (codec.attributesToDer signedAttrs)

/-- Encode a fixed-length `r || s` ECDSA signature. -/
def ecdsaFixedToDer (fixed : List UInt8) : Except String (List UInt8) :=
  if fixed.isEmpty || fixed.length % 2 ≠ 0 then
    .error s!"invalid fixed ECDSA signature length {fixed.length} (expected non-zero even r||s)"
  else
    let half := fixed.length / 2
    let component (bytes : List UInt8) := Der.tlv 0x02 (Der.uintContent (Der.ofBytes bytes))
    .ok (Der.tlv 0x30 (component (fixed.take half) ++ component (fixed.drop half)))

/-- Convert the raw signature of a provider. -/
def encodeX509Signature (alg : Algorithm) (rawSignature : List UInt8) :
    Except String (List UInt8) :=
  match alg with
  | .EcdsaP256Sha256 | .EcdsaP384Sha384 => ecdsaFixedToDer rawSignature
  | _ => .ok rawSignature

/-- The OID of a signature algorithm. -/
def algorithmIdentifier : Algorithm → Except String ObjectIdentifier
  | .RsaPkcs1Sha256 => .ok "1.2.840.113549.1.1.11"
  | .RsaPkcs1Sha384 => .ok "1.2.840.113549.1.1.12"
  | .RsaPkcs1Sha512 => .ok "1.2.840.113549.1.1.13"
  | .EcdsaP256Sha256 => .ok "1.2.840.10045.4.3.2"
  | .EcdsaP384Sha384 => .ok "1.2.840.10045.4.3.3"
  | .Ed25519 => .ok "1.3.101.112"
  | _ => .error "no X.509 AlgorithmIdentifier mapping"

/-- The envelope of a signed message. -/
def envelope (ski : List UInt8) (contentType : ObjectIdentifier) (content : List UInt8)
    (algorithm : Algorithm) (unsignedAttrs : List (ObjectIdentifier × Any))
    (rawSig : List UInt8) : Except Error (List UInt8) := do
  let signedAttrs ← buildSignedAttrs codec contentType content
  let sig ← failing "encode signature value" (encodeX509Signature algorithm rawSig)
  let sigAlg ← failing "signature algorithm id" (algorithmIdentifier algorithm)
  let unsignedAttrs ← buildUnsignedAttrs codec unsignedAttrs
  let econtent ← failing "econtent any" (codec.encodeOctets content)
  let signerInfo : SignerInfo :=
    { sid := .SubjectKeyIdentifier ski, signedAttrs := some signedAttrs
      signatureAlgorithm := sigAlg, signature := sig, unsignedAttrs }
  let signedData : SignedData :=
    { econtentType := contentType, econtent := some econtent, signerInfos := [signerInfo] }
  let content ← failing "encode SignedData" (codec.encodeSignedData signedData)
  failing "encode ContentInfo"
    (codec.contentInfoToDer { contentType := Oids.idSignedData, content })

/-! ### Parsing -/

/-- A TAMP message extracted from a CMS envelope. -/
structure ParsedTampMessage where
  contentType : ObjectIdentifier
  content : List UInt8
  signerSki : List UInt8
  signedAttrsDer : List UInt8
  signature : List UInt8
  signatureAlgOid : ObjectIdentifier
  deriving DecidableEq, Repr

/-- The key identifier of the signer. -/
def signerSki : SignerIdentifier → Except Error (List UInt8)
  | .SubjectKeyIdentifier ski => .ok ski
  | .IssuerAndSerialNumber _ =>
    .error (.Cms "SignerIdentifier must be subjectKeyIdentifier (RFC 5934 §2.2.1)")

/-- The value of a field, or this error. -/
def okOr {α : Type} (e : Error) : Option α → Except Error α
  | some a => .ok a
  | none => .error e

/-- The one signer. -/
def single : List SignerInfo → Except Error SignerInfo
  | [signer] => .ok signer
  | signers => .error (.Cms s!"expected exactly one SignerInfo, found {signers.length}")

/-- Parse a CMS `ContentInfo` carrying a TAMP message. -/
def parse (contentInfoDer : List UInt8) : Except Error ParsedTampMessage := do
  let ci ← asn1 (codec.contentInfoFromDer contentInfoDer)
  if ci.contentType ≠ Oids.idSignedData then
    throw (.Cms "outer content type is not id-signedData")
  let signedData ← failing "decode SignedData" (codec.decodeSignedData ci.content)
  let econtent ← okOr (.Cms "missing eContent") signedData.econtent
  let content ← failing "eContent is not an OCTET STRING" (codec.decodeOctets econtent)
  let signer ← single signedData.signerInfos
  let signerSki ← signerSki signer.sid
  let signedAttrs ← okOr (.Cms "missing signed attributes") signer.signedAttrs
  let signedAttrsDer ← failing "re-encode signed attrs" (codec.attributesToDer signedAttrs)
  return { contentType := signedData.econtentType, content, signerSki, signedAttrsDer
           signature := signer.signature, signatureAlgOid := signer.signatureAlgorithm }

/-! ### Verification -/

/-- The algorithm of an OID. -/
def mapSignatureAlg (oid : ObjectIdentifier) : Except Error Algorithm :=
  if oid = "1.2.840.10045.4.3.2" then .ok .EcdsaP256Sha256
  else if oid = "1.2.840.10045.4.3.3" then .ok .EcdsaP384Sha384
  else if oid = "1.2.840.113549.1.1.11" then .ok .RsaPkcs1Sha256
  else if oid = "1.2.840.113549.1.1.12" then .ok .RsaPkcs1Sha384
  else if oid = "1.2.840.113549.1.1.13" then .ok .RsaPkcs1Sha512
  else if oid = "1.3.101.112" then .ok .Ed25519
  else .error (.Cms s!"unsupported CMS signature algorithm OID {oid}")

/-- Pull the `message-digest` attribute value out of an encoded set. -/
def extractMessageDigest (signedAttrsDer : List UInt8) : Except Error (List UInt8) := do
  let attrs ← asn1 (codec.attributesFromDer signedAttrsDer)
  let attr ← okOr (.Cms "no message-digest attribute") (attrs.find? (·.oid = idMessageDigest))
  let value ← okOr (.Cms "empty message-digest attribute") attr.values.head?
  failing "message-digest value" (codec.decodeOctets value)

/-- Verify the signature, and that the digest is that of the content. -/
def verify (parsed : ParsedTampMessage) (signerSpkiDer : List UInt8) : Except Error Unit := do
  let boundDigest ← extractMessageDigest codec parsed.signedAttrsDer
  if boundDigest ≠ codec.sha256 parsed.content then
    throw (.SignatureFailure "message-digest attribute does not match eContent")
  let algorithm ← mapSignatureAlg parsed.signatureAlgOid
  let ok ← crypto (codec.verifyWithSpki signerSpkiDer algorithm parsed.signedAttrsDer
    parsed.signature false)
  if ok then return () else throw (.SignatureFailure "signature did not verify")

end Cms

end Ostrich.Tamp
