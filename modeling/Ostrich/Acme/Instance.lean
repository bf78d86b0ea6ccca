import Ostrich.Acme.Rest
import Ostrich.X509.Reader

/-!
# An environment to run the service in

`wire messages` is an environment in which a request body is one byte, the number of a message:
the header and the payload that its JSON holds.  Every signature is one byte, and verifies if it is
`1`.  CSRs are read by `derReader`.  `steps` is a part of a schedule in which nothing fails, and
`toReady` one that makes an order `ready`.
-/

namespace Ostrich.Acme.Instance

open Interleave X509

/-- What the JSON of a message holds. -/
structure Message where
  url : String
  nonce : ℕ
  jwk : Option Jwk := none
  kid : Option String := none
  newAccount : Option NewAccountRequest := none
  newOrder : Option NewOrderRequest := none
  updateAccount : Option UpdateAccountRequest := none
  finalize : Option FinalizeRequest := none

/-- An Ed25519 key. -/
def jwk : Jwk :=
  { kty := "OKP", crv := some "Ed25519", x := some "AAAAAAAAAAAAAAAAAAAAAAAAAAAAAAAAAAAAAAAAAAE" }

/-- The text of a small UUID. -/
def uuid (n : ℕ) : String := Uuid.toString ⟨BitVec.ofNat 128 n⟩

/-- Look a message up and take a part of it. -/
def part {α : Type} (messages : List Message) (f : Message → Option α) : FromJson α
  | [k] => match (messages[k.toNat]?).bind f with
    | some a => .ok a
    | none => .error "missing field"
  | _ => .error "expected value"

/-- The environment of these messages. -/
def wire (messages : List Message) : Env where
  baseUrl := "https://ca"
  caClient := some 3
  crypto := { sha256 := fun bytes => bytes.take 32,
              verifyWithSpki := fun _ _ _ s _ => .ok (s = [1]),
              rsaPublicKeyNew := fun _ _ => .ok (), base64Error := fun _ => "invalid",
              derError := "length" }
  asn1 := Reader.derReader
  nameFromAscii := fun s => some (s.toList.getLast? = some '.')
  jwsEnvelope
    | [k] => .ok ⟨Base64.encode [k], Base64.encode [k], "AQ"⟩
    | _ => .error "expected value"
  protectedHeader := part messages fun m =>
    some ⟨"EdDSA", uuid m.nonce, "https://ca/acme/" ++ m.url, m.jwk, m.kid⟩
  newAccountRequest := part messages Message.newAccount
  newOrderRequest := part messages Message.newOrder
  updateAccountRequest := part messages Message.updateAccount
  challengeResponse := part messages fun _ => some ()
  finalizeRequest := part messages Message.finalize
  parseDateTime := fun _ => none
  parseUuid := fun s => if s = uuid 255 then some ⟨255⟩ else none

/-- Nothing fails, validators confirm, the CA issues certificate 255; `n` is the fresh UUID. -/
def choice (n : ℕ) : Choice where
  fault := .none
  drawn := ⟨⟨BitVec.ofNat 128 n⟩, 0, true⟩
  verdict := .ok true
  breakerClosed := true
  issued := .ok (uuid 255)

/-- Task `i` makes a step. -/
def go (i n : ℕ) : Action Task Choice := .run i (choice n)

/-- Task `i` makes `k` steps; the fresh UUIDs are `n`, `n + 1`, … -/
def steps (i n k : ℕ) : List (Action Task Choice) := (List.range k).map fun j => go i (n + j)

/-- A CSR for the common name `cn` (empty: no subject) and these DNS names. -/
def csr (cn : List UInt8) (dns : List (List UInt8)) : List UInt8 :=
  certificationRequest (if cn = [] then Der.tlv 0x30 [] else commonNameDer cn) (Der.tlv 0x30 [])
    (dns.map fun name => (0x82, name)) [0x2b, 0x65, 0x70] [1]

/-- `OnlyRequests` as a check. -/
def onlyRequests (_ : AcmeWorld) : AcmeEvent → Bool
  | .start _ (.validation _) none => false
  | _ => true

theorem onlyRequests_sound (w : AcmeWorld) (ev : AcmeEvent) (h : onlyRequests w ev = true) :
    OnlyRequests w ev := by
  rintro i challenge rfl
  cases h

/-- An account, an order for `a.b`, an answer to its http-01 challenge, and two finalize
requests. -/
def orderMessages : List Message :=
  let kid := some ("acct-" ++ uuid 10)
  let finalizeUrl := "order/order-" ++ uuid 20 ++ "/finalize"
  let finalize := some ⟨Base64.encode (csr [] [[97, 46, 98]])⟩
  [{ url := "new-account", nonce := 1, jwk,
     newAccount := some { termsOfServiceAgreed := true } },
   { url := "new-order", nonce := 2, kid,
     newOrder := some { identifiers := [⟨"dns", "a.b"⟩] } },
   { url := "challenge/chall-" ++ uuid 26, nonce := 3, kid },
   { url := finalizeUrl, nonce := 4, kid, finalize },
   { url := finalizeUrl, nonce := 5, kid, finalize }]

/-- Tasks 0 to 4 make nonces, task 5 the account, task 6 the order, task 7 answers the challenge,
and task 8 validates it: the order is `ready`. -/
def toReady : List (Action Task Choice) :=
  (List.range 5).flatMap (fun i => .arrive (.getNewNonce false) :: steps i (i + 1) 3)
    ++ .arrive (.newAccount [0]) :: steps 5 8 7 ++ .arrive (.newOrder [1]) :: steps 6 18 21
    ++ .arrive (.respondToChallenge ("chall-" ++ uuid 26) [2]) :: steps 7 50 6 ++ steps 8 60 9

end Ostrich.Acme.Instance
