import Ostrich.Crypto.Algorithm
import Ostrich.Lib.Der
import Ostrich.Lib.Outcome
import Ostrich.Lib.Text

/-!
# Certificate signing requests (`ostrich-x509/src/parser.rs`)

`parseCsr` reads a PKCS#10 request: with x509-parser, and where that rejects the request with the
`der` crate, after putting back an attributes field that was left out
(`normalizeMissingAttributes`).  Both paths take the subject alternative names out of the
extensionRequest attribute with `extractSansFromExtensionRequest`, which prints one text for each
name.

`Asn1Lib` holds the decoders of the other crates.  Its two proofs say that an element that was read
is not empty, so the loops over elements end (`generalNamesLoop_fuel`,
`extensionsLoop_fuel`); the fuel of a loop is the number of
bytes that are left.  A slice outside its buffer is `Outcome.panic`.
-/

namespace Ostrich.X509

open Crypto Der Text

/-- The errors of the crate that this module returns. -/
inductive Error where
  | Parse (msg : String)
  | SignatureVerification (msg : String)
  deriving DecidableEq, Repr

/-! ### What the decoders give -/

/-- An attribute of a name: its type and its value as a string, or why it is none. -/
structure DnAttribute where
  oid : String
  value : Except String String

/-- x509-parser's `X509Name`: its text and its RDNs. -/
structure X509Name where
  display : String
  rdns : List (List DnAttribute)

/-- x509-parser's `X509CertificationRequest`. -/
structure X509Request where
  subject : X509Name
  subjectPki : List UInt8
  signature : List UInt8
  signatureAlgorithm : String
  attributes : List (String × List UInt8)
  infoRaw : List UInt8

/-- x509-cert's `Name`. -/
structure CertName where
  isEmpty : Bool
  der : Except String (List UInt8)
  display : String

/-- x509-cert's `CertReq`. -/
structure CertReq where
  subject : CertName
  publicKeyDer : Except String (List UInt8)
  algorithmOid : String
  /-- The signature, if its bits fill its octets. -/
  signature : Option (List UInt8)
  attributes : List (String × Except String (List UInt8))

/-- x509-parser's `GeneralName`. -/
inductive GeneralName where
  | DNSName (dns : String)
  | RFC822Name (email : String)
  | URI (uri : String)
  | IPAddress (ip : List UInt8)
  | DirectoryName (dn : String)
  | OtherName (oid : String) (value : List UInt8)
  | RegisteredID (oid : String)
  | X400Address (addr : List UInt8)
  | EDIPartyName (edi : List UInt8)
  | Invalid (tag : String) (raw : List UInt8)
  deriving DecidableEq, Repr

/-- The decoders of other crates.  Those of one element give what follows it and what it holds. -/
structure Asn1Lib where
  requestFromDer : List UInt8 → Except String X509Request
  certReqFromDer : List UInt8 → Except String CertReq
  nameFromDer : List UInt8 → Except String X509Name
  setFromDer : List UInt8 → Except String (List UInt8 × List UInt8)
  sequenceFromDer : List UInt8 → Except String (List UInt8 × List UInt8)
  oidFromDer : List UInt8 → Except String (List UInt8 × String)
  booleanFromDer : List UInt8 → Except String (List UInt8 × Bool)
  octetStringFromDer : List UInt8 → Except String (List UInt8 × List UInt8)
  generalNameFromDer : List UInt8 → Except String (List UInt8 × GeneralName)
  sequence_rest : ∀ der rest content, sequenceFromDer der = .ok (rest, content) →
    rest.length < der.length
  generalName_rest : ∀ der rest name, generalNameFromDer der = .ok (rest, name) →
    rest.length < der.length

/-- Parsed Certificate Signing Request. -/
structure ParsedCsr where
  subjectDn : String
  subjectAlternativeNames : List String
  publicKey : List UInt8
  attributes : List (String × List UInt8)
  signatureAlgorithm : String
  signature : List UInt8
  derEncoded : List UInt8
  deriving DecidableEq, Repr

/-- `map_err(|e| Error::Parse(format!("{}: {}", what, e)))`. -/
def parseErr {α : Type} (what : String) : Except String α → Except Error α
  | .ok a => .ok a
  | .error e => .error (.Parse (what ++ ": " ++ e))

theorem parseErr_eq_ok {α : Type} {what : String} {x : Except String α} {a : α}
    (h : parseErr what x = .ok a) : x = .ok a := by
  cases x with
  | ok b => rw [Except.ok.inj h]
  | error e => cases h

/-! ### Subject alternative names -/

/-- `hex::encode`. -/
def hexEncode (bytes : List UInt8) : String :=
  String.ofList (bytes.flatMap fun b => hexFixed 2 b.toNat)

/-- `{:02x}{:02x}` of two octets. -/
def fmtOctetPair (a b : UInt8) : List Char := hexFixed 2 a.toNat ++ hexFixed 2 b.toNat

/-- The text of an address: dotted decimal, or eight groups of four hexadecimal digits. -/
def fmtIpSan : List UInt8 → Option String
  | [a, b, c, d] => some s!"IP:{a.toNat}.{b.toNat}.{c.toNat}.{d.toNat}"
  | [a, b, c, d, e, f, g, h, i, j, k, l, m, n, o, p] =>
    some (String.ofList ("IP:".toList ++ fmtOctetPair a b ++ ':' :: fmtOctetPair c d
      ++ ':' :: fmtOctetPair e f ++ ':' :: fmtOctetPair g h ++ ':' :: fmtOctetPair i j
      ++ ':' :: fmtOctetPair k l ++ ':' :: fmtOctetPair m n ++ ':' :: fmtOctetPair o p))
  | _ => none

/-- The text of a general name; an address that is not 4 or 16 octets long has none. -/
def fmtGeneralName : GeneralName → Option String
  | .DNSName dns => some ("DNS:" ++ dns)
  | .RFC822Name email => some ("email:" ++ email)
  | .URI uri => some ("URI:" ++ uri)
  | .IPAddress ip => fmtIpSan ip
  | .DirectoryName dn => some ("DirName:" ++ dn)
  | .OtherName oid value => some ("otherName:" ++ oid ++ ":" ++ hexEncode value)
  | .RegisteredID oid => some ("registeredID:" ++ oid)
  | .X400Address addr => some ("x400Address:" ++ hexEncode addr)
  | .EDIPartyName edi => some ("ediPartyName:" ++ hexEncode edi)
  | .Invalid tag raw => some ("invalid:tag=" ++ tag ++ ":" ++ hexEncode raw)

section

variable (lib : Asn1Lib)

/-- The loop over the general names: an entry that cannot be decoded ends it. -/
def generalNamesLoop : ℕ → List UInt8 → List String → List String
  | 0, _, sans => sans
  | fuel + 1, sanRemaining, sans =>
    if sanRemaining = [] then sans
    else match lib.generalNameFromDer sanRemaining with
      | .error _ => sans
      | .ok (rest, gn) =>
        match fmtGeneralName gn with
        | some text => generalNamesLoop fuel rest (sans ++ [text])
        | none => generalNamesLoop fuel rest sans

/-- The names of one subjectAltName extension; `extRemaining` is what follows its OID. -/
def sansOfExtension (extRemaining : List UInt8) (sans : List String) :
    Except Error (List String) := do
  let extRemaining ←
    if extRemaining.head? = some 0x01 then do
      let (rest, _) ← parseErr "Failed to parse critical flag" (lib.booleanFromDer extRemaining)
      pure rest
    else pure extRemaining
  let (_, octetString) ← parseErr "Failed to parse extnValue OCTET STRING"
    (lib.octetStringFromDer extRemaining)
  let (_, sanSeq) ← parseErr "Failed to parse SAN SEQUENCE" (lib.sequenceFromDer octetString)
  return generalNamesLoop lib sanSeq.length sanSeq sans

/-- The loop over the extensions. -/
def extensionsLoop : ℕ → List UInt8 → List String → Except Error (List String)
  | 0, _, sans => .ok sans
  | fuel + 1, remaining, sans =>
    if remaining = [] then .ok sans
    else do
      let (remaining, extensionSeq) ← parseErr "Failed to parse extension SEQUENCE"
        (lib.sequenceFromDer remaining)
      let (extRemaining, extOid) ← parseErr "Failed to parse extension OID"
        (lib.oidFromDer extensionSeq)
      let sans ←
        if extOid = "2.5.29.17" then sansOfExtension lib extRemaining sans else pure sans
      extensionsLoop fuel remaining sans

/-- The SAN texts of the raw DER of an extensionRequest attribute value. -/
def extractSansFromExtensionRequest (setDer : List UInt8) : Except Error (List String) := do
  let (_, extensionsSeqDer) ← parseErr "Failed to parse extensionRequest SET"
    (lib.setFromDer setDer)
  let (_, extensions) ← parseErr "Failed to parse Extensions SEQUENCE"
    (lib.sequenceFromDer extensionsSeqDer)
  extensionsLoop lib extensions.length extensions []

/-- The OID of the extensionRequest attribute. -/
def extensionRequestOid : String := "1.2.840.113549.1.9.14"

/-- The SANs of all extensionRequest attributes. -/
def extractSansFromCsr : List (String × List UInt8) → List String → Except Error (List String)
  | [], sans => .ok sans
  | (oid, value) :: attributes, sans => do
    let more ←
      if oid = extensionRequestOid then extractSansFromExtensionRequest lib value else pure []
    extractSansFromCsr attributes (sans ++ more)

/-! ### The missing attributes field -/

/-- `usize::MAX` on a 64-bit target. -/
def usizeMax : ℕ := 2 ^ 64 - 1

/-- `{:#04x}` of a tag. -/
def fmtTag (tag : UInt8) : String := "0x" ++ String.ofList (hexFixed 2 tag.toNat)

/-- The header length and the content length of the element that `rest` starts with. -/
def derLength (rest : List UInt8) (lenOctet : UInt8) : Except Error (ℕ × ℕ) :=
  if lenOctet &&& 0x80 = 0 then .ok (2, lenOctet.toNat)
  else
    let n := (lenOctet &&& 0x7f).toNat
    if n = 0 ∨ n > 4 then .error (.Parse "unsupported DER length encoding")
    else if ((rest.drop 2).take n).length < n then
      .error (.Parse "CSR truncated (length octets)")
    else .ok (2 + n, ofBytes ((rest.drop 2).take n))

/-- Minimal DER TLV walker: the offsets of the value and of the end of the element. -/
def derTlv (buf : List UInt8) (off : ℕ) (expectedTag : UInt8) : Except Error (ℕ × ℕ) :=
  if off > buf.length then .error (.Parse "CSR truncated (offset past end)")
  else match buf.drop off with
    | tag :: lenOctet :: tail => do
      if tag ≠ expectedTag then
        throw (.Parse ("expected DER tag " ++ fmtTag expectedTag ++ s!" at offset {off}, found "
          ++ fmtTag tag))
      let (headerLen, length) ← derLength (tag :: lenOctet :: tail) lenOctet
      let valueOffset := off + headerLen
      if valueOffset > usizeMax then throw (.Parse "DER offset overflow")
      let endOffset := valueOffset + length
      if endOffset > usizeMax then throw (.Parse "DER length overflow")
      if endOffset > buf.length then throw (.Parse "DER length exceeds buffer")
      return (valueOffset, endOffset)
    | _ => .error (.Parse "CSR truncated (no tag/length)")

/-- `&buf[from..to]`. -/
def slice (buf : List UInt8) (start stop : ℕ) : Outcome Error (List UInt8) :=
  if start ≤ stop ∧ stop ≤ buf.length then .ok ((buf.drop start).take (stop - start)) else .panic

/-- The eight bytes of a `usize`. -/
def toBeBytes (n : ℕ) : List UInt8 :=
  [UInt8.ofNat (n / 2 ^ 56), UInt8.ofNat (n / 2 ^ 48), UInt8.ofNat (n / 2 ^ 40),
    UInt8.ofNat (n / 2 ^ 32), UInt8.ofNat (n / 2 ^ 24), UInt8.ofNat (n / 2 ^ 16),
    UInt8.ofNat (n / 2 ^ 8), UInt8.ofNat n]

/-- DER definite-form length. -/
def derLenBytes (len : ℕ) : List UInt8 :=
  if len < 0x80 then [UInt8.ofNat len]
  else
    let sig := (toBeBytes len).dropWhile (· = 0)
    (0x80 ||| UInt8.ofNat sig.length) :: sig

/-- DER SEQUENCE around `content`. -/
def derSeq (content : List UInt8) : List UInt8 := 0x30 :: (derLenBytes content.length ++ content)

/-- An error of a step as an outcome. -/
def ofExcept {ε α : Type} : Except ε α → Outcome ε α
  | .ok a => .ok a
  | .error e => .err e

theorem ofExcept_eq_ok {ε α : Type} {x : Except ε α} {a : α}
    (h : ofExcept x = (.ok a : Outcome ε α)) : x = .ok a := by
  cases x with
  | ok b => rw [Outcome.ok.inj h]
  | error e => cases h

/-- Put an empty attributes field (`A0 00`) into a request that ends after the public key. -/
def normalizeMissingAttributes (der : List UInt8) : Outcome Error (List UInt8) := do
  let (outerVal, outerEnd) ← ofExcept (derTlv der 0 0x30)
  let (ciVal, ciEnd) ← ofExcept (derTlv der outerVal 0x30)
  let (_, verEnd) ← ofExcept (derTlv der ciVal 0x02)
  let (_, subjEnd) ← ofExcept (derTlv der verEnd 0x30)
  let (_, spkiEnd) ← ofExcept (derTlv der subjEnd 0x30)
  if spkiEnd ≠ ciEnd then return der
  else
    let ciContent ← slice der ciVal ciEnd
    let newCi := derSeq (ciContent ++ [0xA0, 0x00])
    let tail ← slice der ciEnd outerEnd
    return derSeq (newCi ++ tail)

/-! ### Parsing -/

/-- The loop over the attributes of the fallback. -/
def fallbackAttributes : List (String × Except String (List UInt8)) →
    List (String × List UInt8) → List String →
    Except Error (List (String × List UInt8) × List String)
  | [], attributes, sans => .ok (attributes, sans)
  | (oid, values) :: rest, attributes, sans => do
    let value ← parseErr "re-encode attribute values" values
    let more ←
      if oid = extensionRequestOid then extractSansFromExtensionRequest lib value else pure []
    fallbackAttributes rest (attributes ++ [(oid, value)]) (sans ++ more)

/-- The fields of a request that the `der` crate decoded. -/
def parsedOfCertReq (der : List UInt8) (req : CertReq) : Except Error ParsedCsr := do
  let subjectDer ← parseErr "re-encode subject Name" req.subject.der
  let subjectDn := match lib.nameFromDer subjectDer with
    | .ok name => name.display
    | .error _ => req.subject.display
  let publicKey ← parseErr "re-encode SubjectPublicKeyInfo" req.publicKeyDer
  let signature ← match req.signature with
    | some bytes => pure bytes
    | none => throw (.Parse "CSR signature BIT STRING is not octet-aligned")
  let (attributes, sans) ← fallbackAttributes lib req.attributes [] []
  return ⟨subjectDn, sans, publicKey, attributes, req.algorithmOid, signature, der⟩

/-- DER-based fallback for requests that x509-parser rejects. -/
def parseCsrDerFallback (der : List UInt8) : Outcome Error ParsedCsr := do
  let normalized ← normalizeMissingAttributes der
  ofExcept do
    let req ← parseErr "der CertReq decode failed" (lib.certReqFromDer normalized)
    parsedOfCertReq lib der req

/-- The text of an error. -/
def Error.display : Error → String
  | .Parse msg => "Certificate parsing error: " ++ msg
  | .SignatureVerification msg => "Signature verification failed: " ++ msg

/-- Parse a DER-encoded Certificate Signing Request. -/
def parseCsr (der : List UInt8) : Outcome Error ParsedCsr :=
  if der = [] then .err (.Parse "Empty CSR data")
  else match lib.requestFromDer der with
    | .error primaryErr =>
      match parseCsrDerFallback lib der with
      | .err fallbackErr => .err (.Parse ("Failed to parse PKCS#10 CSR: " ++ primaryErr
          ++ " (der fallback also failed: " ++ fallbackErr.display ++ ")"))
      | outcome => outcome
    | .ok csr => ofExcept do
      let sans ← extractSansFromCsr lib csr.attributes []
      return ⟨csr.subject.display, sans, csr.subjectPki, csr.attributes, csr.signatureAlgorithm,
        csr.signature, der⟩

/-! ### Proof of possession -/

/-- The raw DER of the CertificationRequestInfo. -/
def extractCertReqInfoTbs (der : List UInt8) : Outcome Error (List UInt8) := do
  let (outerValue, _) ← ofExcept (derTlv der 0 0x30)
  let (_, ciEnd) ← ofExcept (derTlv der outerValue 0x30)
  slice der outerValue ciEnd

/-- The algorithm of a signature OID. -/
def mapSignatureAlgorithmOid (oid : String) : Except Error Algorithm :=
  match oid with
  | "1.2.840.113549.1.1.11" => .ok .RsaPkcs1Sha256
  | "1.2.840.113549.1.1.12" => .ok .RsaPkcs1Sha384
  | "1.2.840.113549.1.1.13" => .ok .RsaPkcs1Sha512
  | "1.2.840.113549.1.1.10" => .ok .RsaPssSha256
  | "1.2.840.10045.4.3.2" => .ok .EcdsaP256Sha256
  | "1.2.840.10045.4.3.3" => .ok .EcdsaP384Sha384
  | "1.2.840.10045.4.3.4" => .ok .EcdsaP521Sha512
  | "1.3.101.112" => .ok .Ed25519
  | _ => .error (.Parse ("Unsupported signature algorithm OID: " ++ oid))

/-- Verify the self-signature of a request. -/
def verifyCsrSignature (verifyWithSpki : VerifyWithSpki) (csr : ParsedCsr) :
    Outcome Error Bool := do
  let tbsDer ← match lib.requestFromDer csr.derEncoded with
    | .ok parsed => pure parsed.infoRaw
    | .error _ => extractCertReqInfoTbs csr.derEncoded
  let algorithm ← ofExcept (mapSignatureAlgorithmOid csr.signatureAlgorithm)
  match verifyWithSpki csr.publicKey algorithm tbsDer csr.signature false with
  | .ok valid => return valid
  | .error e => .err (.SignatureVerification ("CSR signature verification failed: " ++ e))

end

/-! ### Distinguished names -/

/-- The structured form of a distinguished name. -/
structure DistinguishedName where
  commonName : Option String := none
  country : Option String := none
  stateOrProvince : Option String := none
  locality : Option String := none
  organization : Option String := none
  organizationalUnit : Option String := none
  serialNumber : Option String := none
  deriving DecidableEq, Repr

/-- The loop of `escapeRdnValue`. -/
def escapeRdnChars : List Char → List Char → List Char
  | escaped, [] => escaped
  | escaped, ch :: rest =>
    if [',', '+', '"', '\\', '<', '>', ';'].contains ch ||
        [] = escaped && ['#', ' '].contains ch then
      escapeRdnChars (escaped ++ ['\\', ch]) rest
    else escapeRdnChars (escaped ++ [ch]) rest

/-- Escape the special characters of an RDN value, and then a trailing space. -/
def escapeRdnValue (value : String) : String :=
  let escaped := escapeRdnChars [] value.toList
  if [' '].isSuffixOf escaped && !(['\\', ' '].isSuffixOf escaped) then
    String.ofList (escaped.dropLast ++ ['\\', ' '])
  else String.ofList escaped

/-- The RFC 4514 text of a distinguished name. -/
def DistinguishedName.toStringRfc4514 (dn : DistinguishedName) : String :=
  let part (label : String) (value : Option String) : Option String :=
    value.map fun value => label ++ escapeRdnValue value
  ",".intercalate ([part "CN=" dn.commonName, part "OU=" dn.organizationalUnit,
    part "O=" dn.organization, part "L=" dn.locality, part "ST=" dn.stateOrProvince,
    part "C=" dn.country, part "SERIALNUMBER=" dn.serialNumber].filterMap id)

/-- Put the value of an attribute into its field; other attributes are skipped. -/
def DistinguishedName.set (dn : DistinguishedName) (oid value : String) : DistinguishedName :=
  match oid with
  | "2.5.4.3" => { dn with commonName := some value }
  | "2.5.4.6" => { dn with country := some value }
  | "2.5.4.7" => { dn with locality := some value }
  | "2.5.4.8" => { dn with stateOrProvince := some value }
  | "2.5.4.10" => { dn with organization := some value }
  | "2.5.4.11" => { dn with organizationalUnit := some value }
  | "2.5.4.5" => { dn with serialNumber := some value }
  | _ => dn

/-- The loop over the attributes of all RDNs. -/
def parseDistinguishedName.loop : List DnAttribute → DistinguishedName →
    Except Error DistinguishedName
  | [], dn => .ok dn
  | attr :: attrs, dn => do
    let value ← parseErr "Failed to parse DN attribute value" attr.value
    parseDistinguishedName.loop attrs (dn.set attr.oid value)

/-- Parse a distinguished name to its structured form; of several values for one field the last
stays. -/
def parseDistinguishedName (name : X509Name) : Except Error DistinguishedName :=
  parseDistinguishedName.loop name.rdns.flatten {}

/-- The subject of a CSR in its structured form. -/
def parseCsrSubjectDn (lib : Asn1Lib) (der : List UInt8) : Outcome Error DistinguishedName :=
  match lib.requestFromDer der with
  | .ok csr => ofExcept (parseDistinguishedName csr.subject)
  | .error primaryErr => do
    let normalized ← normalizeMissingAttributes der
    ofExcept do
      let req ← match lib.certReqFromDer normalized with
        | .ok req => .ok req
        | .error fallbackErr => .error (.Parse ("Failed to parse PKCS#10 CSR: " ++ primaryErr
            ++ " (der fallback also failed: " ++ fallbackErr ++ ")"))
      let subjectDer ← parseErr "re-encode subject Name" req.subject.der
      let name ← parseErr "Failed to parse CSR subject Name" (lib.nameFromDer subjectDer)
      parseDistinguishedName name

end Ostrich.X509
