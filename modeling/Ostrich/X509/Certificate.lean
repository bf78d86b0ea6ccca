import Ostrich.Ca.Types
import Ostrich.Common.TrustedTime
import Ostrich.X509.Csr

/-!
# Certificates (`ostrich-x509/src/parser.rs`, `ostrich-x509/src/builder/`)

`parseCertificate` reads the subject and the subject alternative names of a certificate.  Its
printer of the names (`fmtCertificateSan`) knows fewer kinds than that of CSRs (`fmtGeneralName`).

`dnToName` (`builder/certificate.rs`, `builder/crl.rs`) writes a name, and `certificateIssuer` and
`crlIssuer` are the issuers that a CA writes.

`contentOf` makes of a to-be-signed certificate what x509-cert encodes, and `certificateFields`
reads it back: the other fields of `parse_certificate`, with the extensions for basic constraints,
key usage and alternative names.
-/

namespace Ostrich.X509

open Ca (SubjectAltName TbsCertificate)
open Common.TrustedTime (fromTimestamp)
open Der Text

/-- x509-parser's `X509Certificate`, as far as it is read here: the subject, and the names of each
subjectAltName extension that it could parse. -/
structure X509Certificate where
  subject : X509Name
  sanExtensions : List (List GeneralName)

/-- Parsed certificate. -/
structure ParsedCertificate where
  subjectDn : String
  subjectAltNames : List String
  deriving DecidableEq, Repr

/-- The text of a general name of a certificate; other kinds are left out. -/
def fmtCertificateSan : GeneralName → Option String
  | .DNSName dns => some ("DNS:" ++ dns)
  | .RFC822Name email => some ("email:" ++ email)
  | .URI uri => some ("URI:" ++ uri)
  | .IPAddress ip => fmtIpSan ip
  | .DirectoryName dn => some ("DirName:" ++ dn)
  | _ => none

/-- Parse a DER-encoded certificate. -/
def parseCertificate (certificateFromDer : List UInt8 → Except String X509Certificate)
    (der : List UInt8) : Except Error ParsedCertificate :=
  if der = [] then .error (.Parse "Empty DER data")
  else do
    let cert ← parseErr "Failed to parse X.509 certificate" (certificateFromDer der)
    return ⟨cert.subject.display, cert.sanExtensions.flatten.filterMap fmtCertificateSan⟩

/-! ### Names that are written -/

/-- x509-cert's `AttributeTypeAndValue`: the type, and the value as its tag and content octets. -/
structure AttributeTypeAndValue where
  oid : String
  tag : UInt8
  content : List UInt8
  deriving DecidableEq, Repr

/-- x509-cert's `Name`: the RDNs, each with its attributes in the order of their encodings. -/
abbrev RdnSequence := List (List AttributeTypeAndValue)

/-- The bytes that a PrintableString can have. -/
def isPrintable (b : UInt8) : Bool :=
  (0x41 ≤ b && b ≤ 0x5A) || (0x61 ≤ b && b ≤ 0x7A) || (0x30 ≤ b && b ≤ 0x39) ||
    [0x20, 0x27, 0x28, 0x29, 0x2B, 0x2C, 0x2D, 0x2E, 0x2F, 0x3A, 0x3D, 0x3F].contains b

/-- `PrintableStringRef::new`, with the text of its error. -/
def printableStringNew (derError : String) (value : String) : Except String (List UInt8) :=
  if (utf8 value).all isPrintable then .ok (utf8 value) else .error derError

/-- `Utf8StringRef::new`. -/
def utf8StringNew (value : String) : Except String (List UInt8) := .ok (utf8 value)

/-- The RDN of a field, if the field is there. -/
def rdnOf (label oid : String) (tag : UInt8) (new : String → Except String (List UInt8))
    (field : Option String) : Except String RdnSequence :=
  field.elim (.ok []) fun value =>
    ((new value).mapError fun e => "Invalid " ++ label ++ ": " ++ e).map fun content =>
      [[⟨oid, tag, content⟩]]

/-- Convert a structured name to an X.509 name; country and serial number are PrintableStrings, the
other fields UTF8Strings.  The builders of certificates and of CRLs both have this function. -/
def dnToName (derError : String) (dn : DistinguishedName) : Except String RdnSequence := do
  let c ← rdnOf "country" "2.5.4.6" 0x13 (printableStringNew derError) dn.country
  let st ← rdnOf "state" "2.5.4.8" 0x0C utf8StringNew dn.stateOrProvince
  let l ← rdnOf "locality" "2.5.4.7" 0x0C utf8StringNew dn.locality
  let o ← rdnOf "organization" "2.5.4.10" 0x0C utf8StringNew dn.organization
  let ou ← rdnOf "OU" "2.5.4.11" 0x0C utf8StringNew dn.organizationalUnit
  let cn ← rdnOf "CN" "2.5.4.3" 0x0C utf8StringNew dn.commonName
  let sn ← rdnOf "serial number" "2.5.4.5" 0x13 (printableStringNew derError) dn.serialNumber
  return c ++ (st ++ (l ++ (o ++ (ou ++ (cn ++ sn)))))

/-- x509-parser's view of a name; `asStr` reads the value of an attribute as a string. -/
def parsedName (asStr : UInt8 → List UInt8 → Except String String) (display : String)
    (name : RdnSequence) : X509Name :=
  ⟨display, name.map fun rdn => rdn.map fun a => ⟨a.oid, asStr a.tag a.content⟩⟩

/-- Parse the subject of a DER-encoded certificate to its structured form. -/
def parseSubjectDn (certificateFromDer : List UInt8 → Except String X509Certificate)
    (der : List UInt8) : Except Error DistinguishedName := do
  let cert ← parseErr "Failed to parse certificate" (certificateFromDer der)
  parseDistinguishedName cert.subject

/-- The issuer of the certificates that a CA with this certificate issues. -/
def certificateIssuer (certificateFromDer : List UInt8 → Except String X509Certificate)
    (derError : String) (caCertificate : List UInt8) : Except String RdnSequence := do
  let dn ← (parseSubjectDn certificateFromDer caCertificate).mapError fun e =>
    "Failed to parse CA subject DN: " ++ e.display
  dnToName derError dn

/-- The issuer of the CRLs that a CA with this certificate signs. -/
def crlIssuer (certificateFromDer : List UInt8 → Except String X509Certificate)
    (derError : String) (caCertificate : List UInt8) : Except String RdnSequence := do
  let dn ← (parseSubjectDn certificateFromDer caCertificate).mapError fun e =>
    "Failed to parse CA certificate subject DN: " ++ e.display
  dnToName derError dn

/-- The DER of an attribute; `oidContent` gives the content octets of an OID. -/
def attributeDer (oidContent : String → List UInt8) (a : AttributeTypeAndValue) : List UInt8 :=
  tlv 0x30 (tlv 0x06 (oidContent a.oid) ++ tlv a.tag a.content)

/-- The DER of a name. -/
def nameDer (oidContent : String → List UInt8) (name : RdnSequence) : List UInt8 :=
  tlv 0x30 (name.flatMap fun rdn => tlv 0x31 (rdn.flatMap fun a => attributeDer oidContent a))

/-! ### The content of a certificate -/

/-- x509-cert's `Time`, in seconds since 1970. -/
inductive CertTime where
  | UtcTime (secs : ℕ)
  | GeneralTime (secs : ℕ)
  deriving DecidableEq, Repr

def CertTime.secs : CertTime → ℕ
  | .UtcTime secs | .GeneralTime secs => secs

/-- The value of an extension; the bits of a key usage are those of its BIT STRING. -/
inductive ExtensionValue where
  | KeyUsage (bits : List UInt8)
  | BasicConstraints (ca : Bool) (pathLenConstraint : Option ℕ)
  | ExtendedKeyUsage (oids : List String)
  | SubjectAlternativeName (names : List GeneralName)
  deriving DecidableEq, Repr

structure CertExtension where
  extnId : String
  critical : Bool
  value : ExtensionValue
  deriving DecidableEq, Repr

/-- The fields of a certificate, as x509-cert encodes and x509-parser decodes them. -/
structure TbsContent where
  serialNumber : ℕ
  issuer : RdnSequence
  notBefore : CertTime
  notAfter : CertTime
  subject : RdnSequence
  subjectPublicKeyInfo : List UInt8
  extensions : List CertExtension
  deriving DecidableEq, Repr

/-- The functions of other crates: encoding and decoding, a SubjectPublicKeyInfo decoded and encoded
again, an OID from its text, and the text of an error. -/
structure CertLib where
  toDer : TbsContent → Except String (List UInt8)
  fromDer : List UInt8 → Except String TbsContent
  spkiFromDer : List UInt8 → Except String (List UInt8)
  oidNew : String → Except String String
  derError : String

section

variable (lib : CertLib)

/-! ### Building -/

/-- `SerialNumber::new`, with at most twenty octets. -/
def serialNew (bytes : List UInt8) : Except String ℕ :=
  if (uintContent (ofBytes bytes)).length ≤ 20 then .ok (ofBytes bytes)
  else .error ("Invalid serial number: " ++ lib.derError)

/-- The last second that the `der` crate has a date for. -/
def maxUnixDuration : ℕ := 253402300799

/-- `dt.year()`, of a time in seconds since 1970. -/
def yearOf (secs : ℤ) : ℤ := (DateTime.civil (secs / 86400)).1

/-- `UtcTime::from_unix_duration`. -/
def utcTimeNew (secs : ℕ) : Except String CertTime :=
  if secs ≤ maxUnixDuration ∧ yearOf secs ≤ 2049 then .ok (.UtcTime secs)
  else .error ("Invalid UTC time: " ++ lib.derError)

/-- `GeneralizedTime::from_unix_duration`. -/
def generalizedTimeNew (secs : ℕ) : Except String CertTime :=
  if secs ≤ maxUnixDuration then .ok (.GeneralTime secs)
  else .error ("Invalid generalized time: " ++ lib.derError)

/-- Convert a time to X.509: UTCTime through 2049, GeneralizedTime thereafter. -/
def datetimeToTime (dt : DateTime) : Except String CertTime :=
  let timestamp := (dt.secs % 2 ^ 64).toNat
  if yearOf dt.secs ≤ 2049 then utcTimeNew lib timestamp else generalizedTimeNew lib timestamp

/-- The bits that stand for a key usage. -/
def KeyUsage.bits : KeyUsage → UInt16
  | .DigitalSignature => (0x80 : UInt16) <<< 8
  | .NonRepudiation => (0x40 : UInt16) <<< 8
  | .KeyEncipherment => (0x20 : UInt16) <<< 8
  | .DataEncipherment => (0x10 : UInt16) <<< 8
  | .KeyAgreement => (0x08 : UInt16) <<< 8
  | .KeyCertSign => (0x04 : UInt16) <<< 8
  | .CrlSign => (0x02 : UInt16) <<< 8
  | .EncipherOnly => (0x01 : UInt16) <<< 8
  | .DecipherOnly => 0x01

def keyUsageBits (usages : List KeyUsage) : UInt16 :=
  usages.foldl (fun bits usage => bits ||| usage.bits) 0

/-- `u16::to_be_bytes`. -/
def u16ToBeBytes (n : UInt16) : List UInt8 := [UInt8.ofNat (n.toNat / 256), UInt8.ofNat n.toNat]

def keyUsageExtension (usages : List KeyUsage) : List CertExtension :=
  if usages.isEmpty then []
  else [⟨"2.5.29.15", true, .KeyUsage (u16ToBeBytes (keyUsageBits usages))⟩]

def basicConstraintsExtension (ca : Bool) (pathLen : Option ℕ) : List CertExtension :=
  if ca || pathLen.isSome then [⟨"2.5.29.19", ca, .BasicConstraints ca pathLen⟩] else []

def ekuOid : ExtendedKeyUsage → Except String String
  | .Custom oid => (lib.oidNew oid).mapError fun e => "Invalid custom EKU OID: " ++ e
  | eku => .ok eku.oid

def extendedKeyUsageExtension (usages : List ExtendedKeyUsage) :
    Except String (List CertExtension) :=
  if usages.isEmpty then .ok []
  else do
    let ekus ← usages.mapM (ekuOid lib)
    return [⟨"2.5.29.37", false, .ExtendedKeyUsage ekus⟩]

/-- `Ia5StringRef::new`. -/
def ia5StringNew (what value : String) : Except String String :=
  if value.toList.all fun c => c.toNat < 128 then .ok value
  else .error ("Invalid " ++ what ++ ": " ++ lib.derError)

/-- The octets of an address. -/
def sanOctets : Net.IpAddr → List UInt8
  | .v4 ip => List.ofFn ip.octets
  | .v6 ip => (List.ofFn ip.segments).flatMap u16ToBeBytes

/-- The general name of an alternative name; a directory name is skipped. -/
def sanEntry : SubjectAltName → Except String (Option GeneralName)
  | .DnsName dns => do return some (.DNSName (← ia5StringNew lib "DNS name" dns))
  | .Rfc822Name email => do return some (.RFC822Name (← ia5StringNew lib "email" email))
  | .UniformResourceIdentifier uri => do return some (.URI (← ia5StringNew lib "URI" uri))
  | .IpAddress ip => return some (.IPAddress (sanOctets ip))
  | .DirectoryName _ => return none

def subjectAltNameExtension (sans : List SubjectAltName) : Except String (List CertExtension) :=
  if sans.isEmpty then .ok []
  else do
    let entries ← sans.mapM (sanEntry lib)
    let sanEntries := entries.reduceOption
    return if sanEntries.isEmpty then []
      else [⟨"2.5.29.17", false, .SubjectAlternativeName sanEntries⟩]

/-- Build the extensions. -/
def buildExtensions (tbs : TbsCertificate) : Except String (List CertExtension) := do
  let eku ← extendedKeyUsageExtension lib tbs.extendedKeyUsage
  let san ← subjectAltNameExtension lib tbs.subjectAltNames
  return keyUsageExtension tbs.keyUsage ++
    (basicConstraintsExtension tbs.basicConstraintsCa tbs.basicConstraintsPathLen ++ (eku ++ san))

/-- What is encoded of a certificate. -/
def contentOf (tbs : TbsCertificate) : Except String TbsContent := do
  let serial ← serialNew lib tbs.serialNumber
  let issuer ← dnToName lib.derError tbs.issuer
  let subject ← dnToName lib.derError tbs.subject
  let notBefore ← datetimeToTime lib tbs.notBefore
  let notAfter ← datetimeToTime lib tbs.notAfter
  let spki ← (lib.spkiFromDer tbs.publicKey).mapError fun e => "Invalid public key: " ++ e
  let extensions ← buildExtensions lib tbs
  return ⟨serial, issuer, notBefore, notAfter, subject, spki, extensions⟩

/-- Encode to DER for signing. -/
def tbsToDer (tbs : TbsCertificate) : Except String (List UInt8) := do
  let content ← contentOf lib tbs
  (lib.toDer content).mapError fun e => "Failed to encode TBS certificate: " ++ e

/-- The certificate: what is signed, the algorithm and the signature. -/
def signedCertificate (tbs algorithm signature : List UInt8) : List UInt8 :=
  tlv 0x30 (tbs ++ (algorithm ++ tlv 0x03 (0x00 :: signature)))

/-! ### Parsing -/

/-- The fields that `parse_certificate` reads of the content. -/
structure CertificateFields where
  serialNumber : List UInt8
  notBefore : DateTime
  notAfter : DateTime
  publicKey : List UInt8
  basicConstraints : Option (Bool × Option ℕ)
  keyUsage : Option (List String)
  subjectAltNames : List String
  deriving DecidableEq, Repr

/-- What the extensions give: basic constraints, key usage and alternative names. -/
structure ExtensionsResult where
  basicConstraints : Option (Bool × Option ℕ)
  keyUsage : Option (List String)
  subjectAltNames : List String

/-- The flags of a key usage, in the order in which they are listed. -/
def keyUsageFlags : List (ℕ × String) :=
  [(0, "digitalSignature"), (1, "nonRepudiation"), (2, "keyEncipherment"), (3, "dataEncipherment"),
    (4, "keyAgreement"), (5, "keyCertSign"), (6, "cRLSign"), (7, "encipherOnly"),
    (8, "decipherOnly")]

/-- A bit of a BIT STRING. -/
def bitAt (bits : List UInt8) (n : ℕ) : Bool := (bits.getD (n / 8) 0).toNat.testBit (7 - n % 8)

def usagesOf (bits : List UInt8) : List String :=
  (keyUsageFlags.filter fun flag => bitAt bits flag.1).map (·.2)

/-- One extension; of a kind that is not read, or with another value, it is skipped. -/
def parseExtension (result : ExtensionsResult) (ext : CertExtension) : ExtensionsResult :=
  match ext.extnId, ext.value with
  | "2.5.29.19", .BasicConstraints ca pathLen =>
    { result with basicConstraints := some (ca, pathLen) }
  | "2.5.29.15", .KeyUsage bits => { result with keyUsage := some (usagesOf bits) }
  | "2.5.29.17", .SubjectAlternativeName names =>
    { result with
      subjectAltNames := result.subjectAltNames ++ names.filterMap fmtCertificateSan }
  | _, _ => result

def parseCertificateExtensions (extensions : List CertExtension) : ExtensionsResult :=
  extensions.foldl parseExtension ⟨none, none, []⟩

/-- `BigUint::to_bytes_be`. -/
def toBytesBe (n : ℕ) : List UInt8 := if n = 0 then [0] else minBytes n

/-- `from_timestamp` of a time of the validity. -/
def validityTime (what : String) (t : CertTime) : Except Error DateTime :=
  match fromTimestamp t.secs with
  | some dt => .ok dt
  | none => .error (.Parse ("Invalid " ++ what ++ " timestamp"))

/-- The fields of a DER-encoded certificate that `parseCertificate` leaves out, and its names. -/
def certificateFields (der : List UInt8) : Except Error CertificateFields :=
  if der = [] then .error (.Parse "Empty DER data")
  else do
    let cert ← parseErr "Failed to parse X.509 certificate" (lib.fromDer der)
    let notBefore ← validityTime "notBefore" cert.notBefore
    let notAfter ← validityTime "notAfter" cert.notAfter
    let extensions := parseCertificateExtensions cert.extensions
    return ⟨toBytesBe cert.serialNumber, notBefore, notAfter, cert.subjectPublicKeyInfo,
      extensions.basicConstraints, extensions.keyUsage, extensions.subjectAltNames⟩

end

end Ostrich.X509
