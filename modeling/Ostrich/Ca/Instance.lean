import Ostrich.Ca.Rest
import Ostrich.X509.Reader

/-!
# An environment to run the certificate authority in

`authority` has one profile, reads CSRs with `derReader`, and takes the hexadecimal digits of a CSR
for its PEM.  `go` is a step of a task in which nothing fails, at a time in seconds.
-/

namespace Ostrich.Ca.Instance

open Common Interleave X509

/-- A small UUID. -/
def uuid (n : ℕ) : Uuid := ⟨BitVec.ofNat 128 n⟩

theorem nanos_time : 0 < 2000000000 := by decide

theorem leap_time (secs : ℤ) : 1000000000 ≤ 0 → secs % 60 = 59 := fun h => absurd h (by decide)

/-- A time in seconds. -/
def time (secs : ℤ) : DateTime := ⟨secs, 0, nanos_time, leap_time secs⟩

/-- A profile that meets the default policy. -/
def server : CertificateProfile :=
  { name := "server", profileType := .TlsClient, validityDays := 365, keyType := "ec_p256",
    algorithm := "ecdsa_p256_sha256", keyUsage := [.DigitalSignature],
    extendedKeyUsage := [.ClientAuth], basicConstraintsCa := false,
    basicConstraintsPathLen := none, subjectAltNameRequired := false }

/-- A CSR for a common name. -/
def csr (cn : List UInt8) : List UInt8 :=
  certificationRequest (commonNameDer cn) (Der.tlv 0x30 []) [] [0x2b, 0x65, 0x70] [1]

/-- The CSR with this text. -/
def pem (cn : List UInt8) : String := hexEncode (csr cn)

/-- The CA with the id 1, with the approval workflow on or off. -/
def authority (requireApproval : Bool) : Env where
  caId := uuid 1
  requireApproval := requireApproval
  approvalRepo := true
  requireProofOfPossession := true
  expirationDuration := 100
  crlValidityHours := 24
  deltaCrlUrl := none
  profiles := fun name => if name = "server" then some server else none
  secureDefaults := {}
  asn1 := Reader.derReader
  verifyWithSpki := fun _ _ _ signature _ => .ok (signature = [1])
  caSubject := .ok { commonName := "ca" }
  signatureAlgorithm := .ok .Ed25519
  keyIdentifier := fun spki => .ok (spki.take 20)
  certificateToDer := fun tbs => .ok tbs.serialNumber
  crlToDer := fun tbs => .ok [UInt8.ofNat tbs.crlNumber.toNat]
  encodeSignature := fun _ signature => .ok signature
  decodePem := fun text =>
    match [[97], [98]].find? fun cn => pem cn = text with
    | some cn => .ok (csr cn)
    | none => .error "invalid PEM"
  parseUuid := fun text => ((List.range 100).map uuid).find? fun u => u.toString = text

/-- Nothing fails; `n` is the fresh UUID, and the last byte of the random ones. -/
def choice (n : ℕ) (secs : ℤ) : Choice where
  fault := .none
  now := time secs
  uuid := uuid n
  random := .ok ⟨1 :: List.replicate 18 0 ++ [UInt8.ofNat n], rfl⟩
  signature := .ok [1]
  audited := true

/-- Task `i` makes a step. -/
def go (i n : ℕ) (secs : ℤ) : Action Task Choice := .run i (choice n secs)

/-- Task `i` makes `k` steps at a time; the fresh UUIDs are `n`, `n + 1`, … -/
def steps (i n k : ℕ) (secs : ℤ) : List (Action Task Choice) :=
  (List.range k).map fun j => go i (n + j) secs

/-- A certificate with this number as its id and its serial number. -/
def cert (n : ℕ) : Certificate where
  id := uuid n
  caId := uuid 1
  serialNumber := [UInt8.ofNat n]
  tbs :=
    { serialNumber := [UInt8.ofNat n], subject := { commonName := "a" },
      issuer := { commonName := "ca" }, notBefore := time 0, notAfter := time 100,
      publicKey := [], keyUsage := [], extendedKeyUsage := [], basicConstraintsCa := false,
      basicConstraintsPathLen := none, subjectAltNames := [] }
  signature := [1]
  revoked := false
  revocationTime := none
  revocationReason := none
  requestor := none
  profileName := none
  requestId := none

/-! ### Approvals -/

/-- A user who can approve and reject. -/
def raStaff (n : ℕ) : AuthenticatedUser where
  id := uuid n
  username := "ra"
  roles := [.RaStaff]
  certificateSubject := none

/-- The details of a request for a common name. -/
def details (cn : List UInt8) : Json :=
  .object [("csr_pem", .string (pem cn)), ("profile", .string "server")]

/-- Task 0: the user 2 submits the request 11 for the common name "a", at the time 1. -/
def submitted : List (Action Task Choice) :=
  .arrive (.submitApprovalRequest (raStaff 2) .Issuance (details [97])) :: steps 0 10 4 1

/-- A user approves the request 11. -/
def approve (n : ℕ) : Action Task Choice :=
  .arrive (.approveRequest (raStaff n) (uuid 11).toString false none)

/-- A direct request with a CSR for the common name "b", under the request 11. -/
def directRequest : IssueCertificateRequest where
  profileName := "server"
  subject := none
  subjectAltNames := []
  publicKey := none
  csrDer := some (csr [98])
  approvalRequestId := some (uuid 11).toString

end Ostrich.Ca.Instance
