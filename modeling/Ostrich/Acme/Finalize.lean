import Mathlib.Data.List.Dedup
import Ostrich.Acme.Identifier

/-!
# The checks of finalize (`ostrich-acme/src/rest.rs`)

* `checkChallengePermitted`: which challenge types may validate an authorization;
* `checkOrderFinalizable`: the order is `ready` and every identifier of it has its own `valid`
  authorization;
* `validateCsrIdentifiers`: the CSR asks for the identifiers of the order and nothing else.

A `HashSet` or `BTreeSet` is the list of its elements.
-/

namespace Ostrich.Acme

open Text

/-- Refuse a challenge that must never be validated for this authorization. -/
def checkChallengePermitted (authz : AcmeAuthorization) (challengeType : String) : Result Unit :=
  if authz.wildcard && challengeType ≠ "dns-01" then
    .error (.Unauthorized "wildcard authorizations can only be validated with dns-01")
  else if authz.identifierType = "ip" && challengeType ≠ "http-01" then
    .error (.Unauthorized "ip authorizations can only be validated with http-01")
  else if authz.identifierValue.toList.contains '*' then
    .error (.Malformed "authorization identifier is not a valid DNS name")
  else .ok ()

/-! ### The order and its authorizations -/

/-- The key of an authorization row. -/
def AcmeAuthorization.key (authz : AcmeAuthorization) : String × String × Bool :=
  (authz.identifierType, toAsciiLowercase authz.identifierValue, authz.wildcard)

/-- Pass 1 of `checkOrderFinalizable`: every row takes its own key out of `expectedKeys`. -/
def bindAuthorizations : List AcmeAuthorization → List (String × String × Bool) → Bool
  | [], _ => true
  | authz :: authzs, expectedKeys =>
    if authz.key ∈ expectedKeys then bindAuthorizations authzs (expectedKeys.erase authz.key)
    else false

/-- A `valid` `http-01` challenge row of the authorization. -/
def provenByHttp01 (challenges : List AcmeChallenge) (authz : AcmeAuthorization) : Bool :=
  challenges.any fun c =>
    c.authorizationId = authz.id && c.challengeType = "http-01" && c.status = "valid"

/-- Refuse finalization unless the order is `ready`, unexpired, and every order identifier is
bound one-to-one to a `valid`, unexpired authorization. -/
def checkOrderFinalizable (nameFromAscii : String → Option Bool) (order : AcmeOrder)
    (orderIdentifiers : List Identifier) (authzs : List AcmeAuthorization)
    (challenges : List AcmeChallenge) (now : DateTime) : Result Unit :=
  if order.status ≠ "ready" || order.expires ≤ now then .error .OrderNotReady
  else match validateOrderIdentifiers nameFromAscii orderIdentifiers with
    | .error _ =>
      .error (.Unauthorized "order identifiers do not satisfy the current identifier policy")
    | .ok expected =>
      let expectedKeys := (expected.map AuthzIdentifier.key).dedup
      if authzs.length ≠ expectedKeys.length then
        .error (.Unauthorized "order authorizations do not match the order identifiers")
      else if !bindAuthorizations authzs expectedKeys then
        .error (.Unauthorized "order authorizations do not match the order identifiers")
      else if authzs.any fun authz => authz.status ≠ "valid" || authz.expires ≤ now then
        .error .OrderNotReady
      else if (authzs.filter fun a => a.identifierType = "ip").any
          fun authz => !provenByHttp01 challenges authz then
        .error (.Unauthorized "ip authorization was not validated by http-01")
      else .ok ()

/-! ### The names of the CSR -/

/-- DNS names are compared in lower case, addresses verbatim. -/
def normalize (ty val : String) : String × String :=
  let ty := toAsciiLowercase ty
  (ty, if ty = "dns" then toAsciiLowercase val else val)

/-- The identifier that a SAN of the CSR asks for. -/
def requestedIdentifier (san : String) : Result (String × String) :=
  match stripPrefix san "DNS:" with
  | some dns => .ok (normalize "dns" dns)
  | none =>
    match stripPrefix san "IP:" with
    | some ip => .ok (normalize "ip" ip)
    | none => .error (.Unauthorized
        ("CSR contains a Subject Alternative Name that is not an authorized ACME identifier: "
          ++ san))

/-- RFC 8555 §7.4: the CSR must request exactly the identifiers of the order.  (The two sets that
end the text of the last error are left out.) -/
def validateCsrIdentifiers (orderIdentifiers : List Identifier) (csrSans : List String) :
    Result Unit := do
  let authorized := orderIdentifiers.map fun id => normalize id.idType id.value
  let requested ← csrSans.mapM requestedIdentifier
  if authorized.all (· ∈ requested) && requested.all (· ∈ authorized) then return ()
  else throw (.Unauthorized
    "CSR identifiers do not match the order's authorized identifiers (RFC 8555 §7.4)")

end Ostrich.Acme
