import Ostrich.Acme.Types
import Ostrich.Crypto.Algorithm
import Ostrich.Lib.Base64
import Ostrich.Lib.Der
import Ostrich.Lib.Text

/-!
# JSON Web Signatures and keys (`ostrich-acme/src/jws.rs`)

* `computeJwkThumbprint`: the RFC 7638 thumbprint, from the texts of the JWK members;
* `jwkToSpkiDer`: the SubjectPublicKeyInfo that a signature is verified with, from the decoded
  octets;
* `verifyJwsWithJwk`: verification of an envelope with a JWK.

`CryptoLib` holds what comes from other crates: the hash, the signature verification, the checks of
`RsaPublicKey::new` and the texts of their errors.
-/

namespace Ostrich.Acme

open Der Crypto Text

/-- JWS envelope (RFC 7515 §7.2.1). -/
structure JwsEnvelope where
  «protected» : String
  payload : String
  signature : String
  deriving DecidableEq, Repr

/-- JWS protected header (RFC 8555 §6.2). -/
structure ProtectedHeader where
  alg : String
  nonce : String
  url : String
  jwk : Option Jwk := none
  kid : Option String := none
  deriving DecidableEq, Repr

/-- JWS algorithm identifier (RFC 7518 §3.1). -/
inductive JwsAlgorithm where
  | RS256 | RS384 | RS512 | PS256 | PS384 | PS512 | ES256 | ES384 | ES512 | EdDSA
  deriving DecidableEq, Repr

namespace JwsAlgorithm

def parse (alg : String) : Result JwsAlgorithm :=
  match alg with
  | "RS256" => .ok .RS256
  | "RS384" => .ok .RS384
  | "RS512" => .ok .RS512
  | "PS256" => .ok .PS256
  | "PS384" => .ok .PS384
  | "PS512" => .ok .PS512
  | "ES256" => .ok .ES256
  | "ES384" => .ok .ES384
  | "ES512" => .ok .ES512
  | "EdDSA" => .ok .EdDSA
  | _ => .error (.Malformed ("Unsupported JWS algorithm: " ++ alg))

def toCryptoAlgorithm : JwsAlgorithm → Result Algorithm
  | .RS256 => .ok .RsaPkcs1Sha256
  | .RS384 => .ok .RsaPkcs1Sha384
  | .RS512 => .ok .RsaPkcs1Sha512
  | .PS256 => .ok .RsaPssSha256
  | .PS384 => .ok .RsaPssSha384
  | .PS512 => .ok .RsaPssSha512
  | .ES256 => .ok .EcdsaP256Sha256
  | .ES384 => .ok .EcdsaP384Sha384
  | .ES512 => .error (.Malformed "ES512 (P-521) not yet supported")
  | .EdDSA => .ok .Ed25519

end JwsAlgorithm

/-- The parts of other crates. -/
structure CryptoLib where
  sha256 : List UInt8 → List UInt8
  verifyWithSpki : VerifyWithSpki
  /-- `RsaPublicKey::new`: modulus, exponent. -/
  rsaPublicKeyNew : ℕ → ℕ → Except String Unit
  /-- The text of the error for a text that is not base64url. -/
  base64Error : String → String
  /-- The text of the error for an element longer than `Length::MAX`. -/
  derError : String

section

variable (lib : CryptoLib)

def decodeBase64url (data : String) : Except String (List UInt8) :=
  match Base64.decode data with
  | some bytes => .ok bytes
  | none => .error ("Decoding error: Base64url decode error: " ++ lib.base64Error data)

/-- A parameter of the JWK, or the error that it is missing. -/
def jwkParameter (param : Option String) (missing : String) : Result String :=
  match param with
  | some value => .ok value
  | none => .error (.Malformed missing)

/-! ### Thumbprints -/

/-- The canonical JSON of RFC 7638 §3.3. -/
def canonicalJwk (jwk : Jwk) : Result String :=
  match jwk.kty with
  | "RSA" => do
    let n ← jwkParameter jwk.n "RSA JWK missing 'n' parameter"
    let e ← jwkParameter jwk.e "RSA JWK missing 'e' parameter"
    return "\x7b\"e\":\"" ++ e ++ "\",\"kty\":\"RSA\",\"n\":\"" ++ n ++ "\"\x7d"
  | "EC" => do
    let crv ← jwkParameter jwk.crv "EC JWK missing 'crv' parameter"
    let x ← jwkParameter jwk.x "EC JWK missing 'x' parameter"
    let y ← jwkParameter jwk.y "EC JWK missing 'y' parameter"
    return "\x7b\"crv\":\"" ++ crv ++ "\",\"kty\":\"EC\",\"x\":\"" ++ x ++ "\",\"y\":\"" ++ y
      ++ "\"\x7d"
  | "OKP" => do
    let crv := jwk.crv.getD "Ed25519"
    let x ← jwkParameter jwk.x "OKP JWK missing 'x' parameter"
    return "\x7b\"crv\":\"" ++ crv ++ "\",\"kty\":\"OKP\",\"x\":\"" ++ x ++ "\"\x7d"
  | _ => .error (.Malformed ("Unsupported JWK key type: " ++ jwk.kty))

/-- What is hashed for the thumbprint. -/
def thumbprintInput (jwk : Jwk) : Result (List UInt8) := do
  let canonical ← canonicalJwk jwk
  return utf8 canonical

/-- JWK thumbprint (RFC 7638). -/
def computeJwkThumbprint (jwk : Jwk) : Result String := do
  let input ← thumbprintInput jwk
  return Base64.encode (lib.sha256 input)

/-! ### SubjectPublicKeyInfo -/

/-- `der::Length::MAX`. -/
def derMaxLength : ℕ := 0xfffffff

/-- SubjectPublicKeyInfo with this AlgorithmIdentifier and key. -/
def spki (algorithm key : List UInt8) : List UInt8 :=
  tlv 0x30 (tlv 0x30 algorithm ++ tlv 0x03 (0 :: key))

/-- `SubjectPublicKeyInfo::to_der`, which refuses elements that are too long. -/
def spkiToDer (algorithm key : List UInt8) (failed : String) : Result (List UInt8) :=
  if (spki algorithm key).length ≤ derMaxLength then .ok (spki algorithm key)
  else .error (.Malformed (failed ++ lib.derError))

/-- `BitString::from_bytes`. -/
def bitStringFromBytes (bytes : List UInt8) : Result (List UInt8) :=
  if bytes.length < derMaxLength then .ok bytes
  else .error (.Malformed ("Failed to create BitString: " ++ lib.derError))

/-- Decode a parameter of the JWK. -/
def decodeParameter (value failed : String) : Result (List UInt8) :=
  match decodeBase64url lib value with
  | .ok bytes => .ok bytes
  | .error e => .error (.Malformed (failed ++ e))

/-- rsaEncryption with NULL parameters. -/
def rsaAlgorithm : List UInt8 :=
  tlv 0x06 [0x2a, 0x86, 0x48, 0x86, 0xf7, 0x0d, 0x01, 0x01, 0x01] ++ tlv 0x05 []

/-- RSAPublicKey (RFC 8017). -/
def rsaPublicKey (modulus exponent : ℕ) : List UInt8 :=
  tlv 0x30 (tlv 0x02 (uintContent modulus) ++ tlv 0x02 (uintContent exponent))

/-- RSA JWK to SPKI DER. -/
def jwkRsaToSpki (jwk : Jwk) : Result (List UInt8) := do
  let n ← jwkParameter jwk.n "RSA JWK missing 'n'"
  let e ← jwkParameter jwk.e "RSA JWK missing 'e'"
  let nBytes ← decodeParameter lib n "Invalid RSA modulus encoding: "
  let eBytes ← decodeParameter lib e "Invalid RSA exponent encoding: "
  let modulus := ofBytes nBytes
  let exponent := ofBytes eBytes
  match lib.rsaPublicKeyNew modulus exponent with
  | .error msg => throw (.Malformed ("Invalid RSA public key: " ++ msg))
  | .ok _ =>
    spkiToDer lib rsaAlgorithm (rsaPublicKey modulus exponent) "Failed to encode RSA SPKI: "

/-- The OID of a curve. -/
def curveOid (crv : String) : Result (List UInt8) :=
  match crv with
  | "P-256" => .ok [0x2a, 0x86, 0x48, 0xce, 0x3d, 0x03, 0x01, 0x07]
  | "P-384" => .ok [0x2b, 0x81, 0x04, 0x00, 0x22]
  | "P-521" => .ok [0x2b, 0x81, 0x04, 0x00, 0x23]
  | _ => .error (.Malformed ("Unsupported EC curve: " ++ crv))

/-- ecPublicKey with a named curve. -/
def ecAlgorithm (oid : List UInt8) : List UInt8 :=
  tlv 0x06 [0x2a, 0x86, 0x48, 0xce, 0x3d, 0x02, 0x01] ++ tlv 0x06 oid

/-- EC JWK to SPKI DER: the uncompressed point is `0x04 || x || y`. -/
def jwkEcToSpki (jwk : Jwk) : Result (List UInt8) := do
  let crv ← jwkParameter jwk.crv "EC JWK missing 'crv'"
  let x ← jwkParameter jwk.x "EC JWK missing 'x'"
  let y ← jwkParameter jwk.y "EC JWK missing 'y'"
  let xBytes ← decodeParameter lib x "Invalid EC X coordinate: "
  let yBytes ← decodeParameter lib y "Invalid EC Y coordinate: "
  let oid ← curveOid crv
  let subjectPublicKey ← bitStringFromBytes lib (0x04 :: (xBytes ++ yBytes))
  spkiToDer lib (ecAlgorithm oid) subjectPublicKey "Failed to encode EC SPKI: "

/-- id-Ed25519. -/
def ed25519Algorithm : List UInt8 := tlv 0x06 [0x2b, 0x65, 0x70]

/-- OKP (Ed25519) JWK to SPKI DER. -/
def jwkOkpToSpki (jwk : Jwk) : Result (List UInt8) := do
  let crv := jwk.crv.getD "Ed25519"
  let x ← jwkParameter jwk.x "OKP JWK missing 'x'"
  if crv ≠ "Ed25519" then
    throw (.Malformed ("Unsupported OKP curve: " ++ crv ++ " (only Ed25519 supported)"))
  let publicKeyBytes ← decodeParameter lib x "Invalid Ed25519 public key: "
  if publicKeyBytes.length ≠ 32 then
    throw (.Malformed
      s!"Invalid Ed25519 public key length: {publicKeyBytes.length} (expected 32)")
  let subjectPublicKey ← bitStringFromBytes lib publicKeyBytes
  spkiToDer lib ed25519Algorithm subjectPublicKey "Failed to encode Ed25519 SPKI: "

/-- JWK to SPKI DER. -/
def jwkToSpkiDer (jwk : Jwk) : Result (List UInt8) :=
  match jwk.kty with
  | "RSA" => jwkRsaToSpki lib jwk
  | "EC" => jwkEcToSpki lib jwk
  | "OKP" => jwkOkpToSpki lib jwk
  | _ => .error (.Malformed ("Unsupported JWK key type: " ++ jwk.kty))

/-! ### Verification -/

/-- Verify a JWS with this JWK. -/
def verifyJwsWithJwk (jws : JwsEnvelope) (header : ProtectedHeader) (jwk : Jwk) : Result Bool := do
  let jwsAlg ← JwsAlgorithm.parse header.alg
  let cryptoAlg ← jwsAlg.toCryptoAlgorithm
  let publicKeyDer ← jwkToSpkiDer lib jwk
  let signingInput := jws.protected ++ "." ++ jws.payload
  let signatureBytes ← decodeParameter lib jws.signature "Invalid signature encoding: "
  match lib.verifyWithSpki publicKeyDer cryptoAlg (utf8 signingInput) signatureBytes true with
  | .ok valid => return valid
  | .error e => throw (.Unauthorized ("Signature verification failed: " ++ e))

end

end Ostrich.Acme
