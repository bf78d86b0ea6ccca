import Mathlib.Data.List.Basic

/-!
# Certificate profiles (`ostrich-x509/src/profile.rs`)

A profile says what the certificates that are issued under its name look like.  The key type is the
one that its keys are meant to have.
-/

namespace Ostrich.X509

inductive ProfileType where
  | RootCa
  | IntermediateCa
  | TlsServer
  | TlsClient
  | CodeSigning
  | EmailProtection
  | OcspSigning
  | SmartcardAuth
  | Efs
  | Custom
  deriving DecidableEq, Repr

inductive KeyUsage where
  | DigitalSignature
  | NonRepudiation
  | KeyEncipherment
  | DataEncipherment
  | KeyAgreement
  | KeyCertSign
  | CrlSign
  | EncipherOnly
  | DecipherOnly
  deriving DecidableEq, Repr

inductive ExtendedKeyUsage where
  | ServerAuth
  | ClientAuth
  | CodeSigning
  | EmailProtection
  | TimeStamping
  | OcspSigning
  | Efs
  | Custom (oid : String)
  deriving DecidableEq, Repr

/-- The OID of an extended key usage. -/
def ExtendedKeyUsage.oid : ExtendedKeyUsage → String
  | .ServerAuth => "1.3.6.1.5.5.7.3.1"
  | .ClientAuth => "1.3.6.1.5.5.7.3.2"
  | .CodeSigning => "1.3.6.1.5.5.7.3.3"
  | .EmailProtection => "1.3.6.1.5.5.7.3.4"
  | .TimeStamping => "1.3.6.1.5.5.7.3.8"
  | .OcspSigning => "1.3.6.1.5.5.7.3.9"
  | .Efs => "1.3.6.1.4.1.311.10.3.4"
  | .Custom oid => oid

/-- Certificate profile configuration. -/
structure CertificateProfile where
  name : String
  profileType : ProfileType
  validityDays : ℕ
  keyType : String
  algorithm : String
  keyUsage : List KeyUsage
  extendedKeyUsage : List ExtendedKeyUsage
  basicConstraintsCa : Bool
  basicConstraintsPathLen : Option ℕ
  subjectAltNameRequired : Bool
  deriving DecidableEq, Repr

/-- Validate the profile configuration. -/
def CertificateProfile.validate (profile : CertificateProfile) : Except String Unit :=
  if profile.basicConstraintsCa && !profile.keyUsage.contains .KeyCertSign then
    .error "CA certificates must have keyCertSign"
  else if profile.keyUsage.isEmpty && profile.extendedKeyUsage.isEmpty then
    .error "Profile must have at least one key usage or extended key usage"
  else if profile.validityDays = 0 then
    .error "Validity period must be greater than 0"
  else .ok ()

/-! ### Constructors -/

/-- Whether certificates of this type are CA certificates. -/
def ProfileType.isCa : ProfileType → Bool
  | .RootCa | .IntermediateCa => true
  | _ => false

namespace CertificateProfile

def new (name : String) (profileType : ProfileType) (validityDays : ℕ)
    (keyType algorithm : String) : CertificateProfile where
  name
  profileType
  validityDays
  keyType
  algorithm
  keyUsage := []
  extendedKeyUsage := []
  basicConstraintsCa := profileType.isCa
  basicConstraintsPathLen := none
  subjectAltNameRequired := false

def intermediateCa (validityDays pathLen : ℕ) : CertificateProfile :=
  { new "Intermediate CA" .IntermediateCa validityDays "rsa_3072" "rsa_pss_sha256" with
    keyUsage := [.KeyCertSign, .CrlSign]
    basicConstraintsCa := true
    basicConstraintsPathLen := some pathLen }

def tlsServer (validityDays : ℕ) : CertificateProfile :=
  { new "TLS Server" .TlsServer validityDays "ec_p256" "ecdsa_p256_sha256" with
    keyUsage := [.DigitalSignature, .KeyEncipherment]
    extendedKeyUsage := [.ServerAuth]
    subjectAltNameRequired := true }

def tlsClient (validityDays : ℕ) : CertificateProfile :=
  { new "TLS Client" .TlsClient validityDays "ec_p256" "ecdsa_p256_sha256" with
    keyUsage := [.DigitalSignature]
    extendedKeyUsage := [.ClientAuth] }

def efs (validityDays : ℕ) : CertificateProfile :=
  { new "EFS" .Efs validityDays "rsa_2048" "rsa_pss_sha256" with
    keyUsage := [.DigitalSignature, .KeyEncipherment, .DataEncipherment]
    extendedKeyUsage := [.Efs] }

/-- Add extended key usage. -/
def withExtendedKeyUsage (profile : CertificateProfile) (usage : ExtendedKeyUsage) :
    CertificateProfile :=
  if profile.extendedKeyUsage.contains usage then profile
  else { profile with extendedKeyUsage := profile.extendedKeyUsage ++ [usage] }

end CertificateProfile

/-- The profiles that the CA server registers at startup (`services/ca-server/src/main.rs`). -/
def defaultProfiles : List CertificateProfile :=
  [{ CertificateProfile.tlsServer 397 with name := "tls_server" },
    { CertificateProfile.tlsClient 365 with name := "tls_client" },
    { (CertificateProfile.tlsServer 397).withExtendedKeyUsage .ClientAuth with
      name := "tls_server_client" },
    { CertificateProfile.tlsServer 90 with name := "acme-default" },
    { CertificateProfile.efs 730 with name := "efs" },
    { CertificateProfile.intermediateCa 1825 0 with name := "intermediate_ca" }]

/-- Every default profile is a valid one. -/
theorem validate_defaultProfiles :
    ∀ profile ∈ defaultProfiles, profile.validate = .ok () := by
  decide

end Ostrich.X509
