import Ostrich.Ca.Instance
import Ostrich.Ocsp.Responder

/-!
# An environment to run the OCSP responder in

`responder` signs with one key, and names the algorithms by their OIDs.  `requestDer` is a request
with SHA-1 hashes; `go` is a step of a task in which nothing fails, at a time in seconds.
-/

namespace Ostrich.Ocsp.Instance

open DerUtil Interleave

/-- A responder with nonces. -/
def responder : Env where
  responseValidity := 3600
  includeNonce := true
  maxEntries := 10000
  oidText := fun bytes => [HashAlgorithm.Sha1.oid, HashAlgorithm.Sha256.oid,
    HashAlgorithm.Sha384.oid, HashAlgorithm.Sha512.oid].find? fun text =>
      objectIdentifier text = some bytes
  signingAlgorithm := .ok .Ed25519
  caCertificateDer := some [0x30, 0]
  subjectName := fun _ => .ok [0x30, 0]
  encodeSignature := fun _ signature => .ok signature
  algorithmIdentifierDer := fun _ => .ok [0x30, 0]

/-- A request with SHA-1 hashes and without a nonce. -/
def requestDer (issuerNameHash issuerKeyHash serialNumber : List UInt8) : List UInt8 :=
  seq (seq (seq (seq (seq (seq (tlv 0x06 [0x2B, 0x0E, 0x03, 0x02, 0x1A] ++ null)
    ++ octetString issuerNameHash ++ octetString issuerKeyHash ++ tlv 0x02 serialNumber)))))

/-- Task `i` makes a step at a time in seconds, in which nothing fails. -/
def go (i : ℕ) (secs : ℤ) : Action Task Choice :=
  .run i { fault := .none, now := Ca.Instance.time secs, pick := 0, signature := .ok [1] }

/-- Task `i` makes `k` steps. -/
def steps (i k : ℕ) (secs : ℤ) : List (Action Task Choice) := List.replicate k (go i secs)

/-- The certificate authority runs a statement. -/
def statement (i : ℕ) (q : Ca.Query) (secs : ℤ) : List (Action Task Choice) :=
  .arrive (.ca q) :: steps i 2 secs

end Ostrich.Ocsp.Instance
