/-!
# Signature algorithms (`ostrich-crypto`)

The algorithms that the protocol services use, and the shape of `verify_with_spki`, the stateless
verification of a signature with a SubjectPublicKeyInfo.
-/

namespace Ostrich.Crypto

/-- Signature algorithms. -/
inductive Algorithm where
  | RsaPkcs1Sha256
  | RsaPkcs1Sha384
  | RsaPkcs1Sha512
  | RsaPssSha256
  | RsaPssSha384
  | RsaPssSha512
  | EcdsaP256Sha256
  | EcdsaP384Sha384
  | EcdsaP521Sha512
  | Ed25519
  deriving DecidableEq, Repr

/-- `verify_with_spki`: key, algorithm, message, signature, fixed-size ECDSA signatures. -/
abbrev VerifyWithSpki : Type :=
  List UInt8 → Algorithm → List UInt8 → List UInt8 → Bool → Except String Bool

end Ostrich.Crypto
