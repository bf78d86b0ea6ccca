import Ostrich.Lib.Text
import Ostrich.X509.Profile

/-!
# Secure defaults (`ostrich-x509/src/secure_defaults.rs`)

The policy that every profile has to meet before a certificate is issued under it
(`SecureDefaults.validateProfile`): key types, key sizes, validity periods, and usages.
-/

namespace Ostrich.X509

open Text

def minRsaKeySize : ℕ := 2048

def minEcKeySize : ℕ := 256

def maxEndEntityValidityDays : ℕ := 825

def serverAuthMaxValidityDays : ℕ := 397

def maxCaValidityDays : ℕ := 7300

def minValidityDays : ℕ := 1

/-- The secure default configuration, as far as profiles are checked against it. -/
structure SecureDefaults where
  minRsaKeySize : ℕ := X509.minRsaKeySize
  minEcKeySize : ℕ := X509.minEcKeySize
  maxEndEntityValidityDays : ℕ := X509.maxEndEntityValidityDays
  maxCaValidityDays : ℕ := X509.maxCaValidityDays
  requireSanForTls : Bool := true
  allowedSignatureAlgorithms : List String :=
    ["rsa_pkcs1_sha256", "rsa_pkcs1_sha384", "rsa_pkcs1_sha512", "rsa_pss_sha256", "rsa_pss_sha384",
      "rsa_pss_sha512", "ecdsa_p256_sha256", "ecdsa_p384_sha384", "ecdsa_p521_sha512", "ed25519",
      "ed448"]
  allowedKeyTypes : List String :=
    ["rsa_2048", "rsa_3072", "rsa_4096", "ec_p256", "ec_p384", "ec_p521", "ed25519", "ed448",
      "ml_kem_512", "ml_kem_768", "ml_kem_1024"]
  prohibitedEkus : List String := ["2.5.29.37.0"]
  maxPathLength : ℕ := 1
  deriving DecidableEq, Repr

/-- The key size that a key type names after this beginning: 0 if it is no number. -/
def keySizeOf (keyType start : String) : ℕ :=
  (parseU32 (trimStartMatches keyType start)).getD 0

/-- The key type starts so. -/
def startsWith (keyType start : String) : Bool := (stripPrefix keyType start).isSome

/-- Validate a certificate profile against the secure defaults. -/
def SecureDefaults.validateProfile (defaults : SecureDefaults) (profile : CertificateProfile) :
    Except String Unit :=
  let hasServerAuth := profile.extendedKeyUsage.any fun eku => eku.oid = "1.3.6.1.5.5.7.3.1"
  let maxValidity :=
    if profile.basicConstraintsCa then defaults.maxCaValidityDays
    else defaults.maxEndEntityValidityDays
  let rsaSize := keySizeOf profile.keyType "rsa_"
  let ecSize := keySizeOf profile.keyType "ec_p"
  if !defaults.allowedKeyTypes.contains profile.keyType then
    .error s!"Key type '{profile.keyType}' is not in allowed list"
  else if !defaults.allowedSignatureAlgorithms.contains profile.algorithm then
    .error s!"Signature algorithm '{profile.algorithm}' is not in allowed list"
  else if hasServerAuth && decide (serverAuthMaxValidityDays < profile.validityDays) then
    .error (s!"serverAuth (TLS server) validity {profile.validityDays} days exceeds the "
      ++ s!"{serverAuthMaxValidityDays}-day maximum that Apple/iOS and other TLS clients accept")
  else if maxValidity < profile.validityDays then
    .error s!"Validity period {profile.validityDays} days exceeds maximum {maxValidity} days"
  else if profile.validityDays < minValidityDays then
    .error s!"Validity period {profile.validityDays} days is below minimum {minValidityDays} day"
  else if startsWith profile.keyType "rsa_" && decide (rsaSize < defaults.minRsaKeySize) then
    .error s!"RSA key size {rsaSize} bits is below minimum {defaults.minRsaKeySize} bits"
  else if startsWith profile.keyType "ec_p" && decide (ecSize < defaults.minEcKeySize) then
    .error s!"EC key size {ecSize} bits is below minimum {defaults.minEcKeySize} bits"
  else if defaults.requireSanForTls && profile.profileType = .TlsServer
      && !profile.subjectAltNameRequired then
    .error "TLS server certificates must require Subject Alternative Name"
  else if profile.basicConstraintsCa && profile.profileType ≠ .RootCa
      && profile.basicConstraintsPathLen.any (defaults.maxPathLength < ·) then
    .error (s!"Path length constraint {profile.basicConstraintsPathLen.getD 0} exceeds maximum "
      ++ s!"{defaults.maxPathLength}")
  else
    match profile.extendedKeyUsage.find? fun eku => defaults.prohibitedEkus.contains eku.oid with
    | some eku => .error s!"Extended key usage OID {eku.oid} is prohibited"
    | none =>
      if profile.basicConstraintsCa && !profile.keyUsage.contains .KeyCertSign then
        .error "CA certificates must have keyCertSign key usage"
      else .ok ()

end Ostrich.X509
