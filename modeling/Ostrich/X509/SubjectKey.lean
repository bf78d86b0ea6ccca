import Ostrich.Lib.Der
import Ostrich.X509.SecureDefaults

/-!
# Subject public keys

What a policy says about keys: the type and the size of the key in a SubjectPublicKeyInfo
(RFC 3279, RFC 5480, RFC 8410), and whether the policy allows it.  The types have the names that
the profiles use for them.
-/

namespace Ostrich.X509

open Der

/-- The key of a SubjectPublicKeyInfo, with the size of RSA and EC keys. -/
inductive SubjectKey where
  | rsa (bits : ℕ)
  | ec (bits : ℕ)
  | ed25519
  | ed448
  | mlKem (parameterSet : ℕ)
  | other
  deriving DecidableEq, Repr

/-- The named curves, with their sizes. -/
def curves : List (List UInt8 × ℕ) :=
  [([0x2a, 0x86, 0x48, 0xce, 0x3d, 0x03, 0x01, 0x07], 256), ([0x2b, 0x81, 0x04, 0x00, 0x22], 384),
    ([0x2b, 0x81, 0x04, 0x00, 0x23], 521)]

/-- rsaEncryption. -/
def rsaEncryption : List UInt8 := [0x2a, 0x86, 0x48, 0x86, 0xf7, 0x0d, 0x01, 0x01, 0x01]

/-- id-ecPublicKey. -/
def ecPublicKey : List UInt8 := [0x2a, 0x86, 0x48, 0xce, 0x3d, 0x02, 0x01]

/-- The algorithms that are the key type as well. -/
def plainAlgorithms : List (List UInt8 × SubjectKey) :=
  [([0x2b, 0x65, 0x70], .ed25519), ([0x2b, 0x65, 0x71], .ed448),
    ([0x60, 0x86, 0x48, 0x01, 0x65, 0x03, 0x04, 0x04, 0x01], .mlKem 512),
    ([0x60, 0x86, 0x48, 0x01, 0x65, 0x03, 0x04, 0x04, 0x02], .mlKem 768),
    ([0x60, 0x86, 0x48, 0x01, 0x65, 0x03, 0x04, 0x04, 0x03], .mlKem 1024)]

/-- The content of an element with this tag, and what follows it. -/
def readTagged (tag : UInt8) (bytes : List UInt8) : Option (List UInt8 × List UInt8) :=
  (readTlv bytes).bind fun element =>
    if element.1 = tag then some (element.2.1, element.2.2) else none

/-- The size of the modulus of an RSAPublicKey. -/
def modulusBits (key : List UInt8) : Option ℕ := do
  let (content, _) ← readTagged 0x30 key
  let (modulus, _) ← readTagged 0x02 content
  return (ofBytes modulus).size

/-- The key with this algorithm, parameters and bits. -/
def keyOf (algorithm parameters key : List UInt8) : Option SubjectKey :=
  if algorithm = rsaEncryption then (modulusBits key).map .rsa
  else if algorithm = ecPublicKey then do
    let (curve, _) ← readTagged 0x06 parameters
    let bits ← curves.lookup curve
    return .ec bits
  else plainAlgorithms.lookup algorithm

/-- The key of a SubjectPublicKeyInfo; the first octet of its BIT STRING counts unused bits. -/
def subjectKey (spki : List UInt8) : SubjectKey :=
  let key? : Option SubjectKey := do
    let (info, _) ← readTagged 0x30 spki
    let (identifier, rest) ← readTagged 0x30 info
    let (bitString, _) ← readTagged 0x03 rest
    let (algorithm, parameters) ← readTagged 0x06 identifier
    keyOf algorithm parameters bitString.tail
  key?.getD .other

/-- The name of the type of a key. -/
def SubjectKey.typeName : SubjectKey → Option String
  | .rsa bits => some ("rsa_" ++ toString bits)
  | .ec bits => some ("ec_p" ++ toString bits)
  | .ed25519 => some "ed25519"
  | .ed448 => some "ed448"
  | .mlKem parameterSet => some ("ml_kem_" ++ toString parameterSet)
  | .other => none

/-- The key has the size that the policy asks for. -/
def SubjectKey.LargeEnough (policy : SecureDefaults) : SubjectKey → Prop
  | .rsa bits => policy.minRsaKeySize ≤ bits
  | .ec bits => policy.minEcKeySize ≤ bits
  | _ => True

/-- The policy allows the type of the key, and its size. -/
def SecureDefaults.AllowsKey (policy : SecureDefaults) (spki : List UInt8) : Prop :=
  (∃ name, (subjectKey spki).typeName = some name ∧ name ∈ policy.allowedKeyTypes) ∧
    (subjectKey spki).LargeEnough policy

end Ostrich.X509
