import Ostrich.Acme.Instance
import Ostrich.Est.Label

/-!
# An environment to run the EST service in

CSRs are read by `derReader`, a signature verifies if it is the byte `1`, and the token of every
client has the hash `[7]`.  `minted uses` are the tables with one enrollment token.
-/

namespace Ostrich.Est.Instance

open Interleave X509

/-- A time in seconds. -/
def time (secs : ℤ) : DateTime := .ofMicros (secs * 1000000)

/-- A token for `uses` devices. -/
def token (uses : ℤ) : EnrollmentToken where
  id := ⟨7⟩
  tokenHash := [7]
  identity := "device"
  profile := none
  createdBy := "operator"
  expiresAt := time 3600
  usedAt := none
  usedByCert := none
  maxUses := uses
  usesRemaining := uses
  revokedAt := none

/-- The tables with the token. -/
def minted (uses : ℤ) : Store := { tokens := ⟨[token uses], List.nodup_singleton _⟩ }

/-- A symbol of standard base64 in the URL-safe alphabet; padding is dropped. -/
def urlSafe : Char → Option Char
  | '+' => some '-'
  | '/' => some '_'
  | '=' => none
  | c => some c

/-- The environment; `certificates` reads certificates. -/
def env (certificates : List UInt8 → Except String X509Certificate) : Env where
  asn1 := Reader.derReader
  certificateFromDer := certificates
  verifyWithSpki := fun _ _ _ s _ => .ok (s = [1])
  base64Decode := fun body =>
    Base64.decode (String.ofList (body.filterMap fun b => urlSafe (Char.ofNat b.toNat)))
  hashToken := fun _ => [7]
  validateSession := fun _ => none
  identityPolicy := .MatchUsername
  enrollProfile := "tls_client"
  caConfigured := true
  parseLabel := Label.resolve
  selectBackend := fun _ => .ok ()
  parseUuid := fun text => if text = Uuid.toString ⟨255⟩ then some ⟨255⟩ else none
  parseEfsRequest := fun _ => .error "expected value"
  encodeResponse := fun _ der => .ok der

/-- The body of a request: the CSR for a common name and these DNS names. -/
def csrBody (cn : List UInt8) (dns : List (List UInt8)) : List UInt8 :=
  Text.utf8 (Base64.encode (Acme.Instance.csr cn dns))

/-- A device with the token asks for the certificate of its name. -/
def enrollDevice : Task := .simpleEnroll (.bearer "secret") none
  (csrBody [100, 101, 118, 105, 99, 101] [])

/-- Nothing fails and the CA issues certificate 255; `answer` is what it answers, `n` is the fresh
UUID. -/
def choice (n : ℕ) (answer : Except String String) : Choice where
  fault := .none
  now := time 1
  uuid := ⟨BitVec.ofNat 128 n⟩
  ca := .issued ⟨⟨255⟩, [1]⟩ answer
  key := .ok []

/-- Task `i` makes `k` steps. -/
def steps (i k : ℕ) (answer : Except String String) : List (Action Task Choice) :=
  List.replicate k (.run i (choice i answer))

/-- The answer of the CA. -/
def answered : Except String String := .ok (Uuid.toString ⟨255⟩)

end Ostrich.Est.Instance
