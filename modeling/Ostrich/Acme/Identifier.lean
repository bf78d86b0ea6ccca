import Ostrich.Acme.Types
import Ostrich.Lib.Net

/-!
# Order identifiers (`ostrich-acme/src/identifier.rs`, `validation.rs`)

`validateOrderIdentifiers` parses the `identifiers` of a newOrder request into the authorizations
that the server creates: for a `*.` name the base domain with `wildcard`, for every other name or
address the value itself.

`nameFromAscii` stands for the DNS library's `Name::from_ascii`: `some fqdn` for a name it accepts
(with whether the name is fully qualified), `none` where it gives an error.
-/

namespace Ostrich.Acme

open Text

def maxOrderIdentifiers : ℕ := 100

def wildcardPrefix : String := "*."

def maxDnsNameLen : ℕ := 253

def maxDomainLen : ℕ := 253

def maxLabelLen : ℕ := 63

def acmeChallengeLabel : String := "_acme-challenge"

/-- The identifier an authorization is created for. -/
structure AuthzIdentifier where
  idType : String
  value : String
  wildcard : Bool
  deriving DecidableEq, Repr

/-! ### DNS names -/

/-- `u8::is_ascii_alphanumeric`. -/
def isAsciiAlphanumeric (c : Char) : Bool :=
  (48 ≤ c.toNat && c.toNat ≤ 57) || (65 ≤ c.toNat && c.toNat ≤ 90)
    || (97 ≤ c.toNat && c.toNat ≤ 122)

/-- `u8::is_ascii_digit`. -/
def isAsciiDigit (c : Char) : Bool := 48 ≤ c.toNat && c.toNat ≤ 57

/-- LDH hostname label check. -/
def isLdhLabel (label : String) : Bool :=
  match label.toList.head?, label.toList.getLast? with
  | some first, some last =>
    label.utf8ByteSize ≤ maxLabelLen && first ≠ '-' && last ≠ '-'
      && label.toList.all fun b => isAsciiAlphanumeric b || b = '-'
  | _, _ => false

/-- Why a string is not an acceptable `dns` identifier. -/
inductive DnsIdentifierViolation where
  | Syntax
  | IpLiteral
  deriving DecidableEq, Repr

/-- The shared `dns` identifier rules used by `newOrder` and dns-01. -/
def dnsIdentifierViolation (domain : String) : Option DnsIdentifierViolation :=
  if domain.toList = [] || domain.toList.getLast? = some '.'
      || domain.utf8ByteSize > maxDomainLen then
    some .Syntax
  else if (Net.parseIpAddr domain).isSome then
    some .IpLiteral
  else
    let labels := splitChar '.' domain
    if labels.any fun label => !isLdhLabel label then some .Syntax
    else if (labels.getLastD "").toList.all isAsciiDigit then some .Syntax
    else none

def validateDnsIdentifier (domain : String) : Result Unit :=
  match dnsIdentifierViolation domain with
  | none => .ok ()
  | some .Syntax => .error (.Malformed "dns identifier is not a valid DNS name")
  | some .IpLiteral =>
    .error (.Malformed "IP address identifiers must use identifier type \"ip\"")

section

variable (nameFromAscii : String → Option Bool)

/-- Whether `_acme-challenge.<domain>.` can be queried. -/
def dns01QueryName (domain : String) : Result Unit :=
  match dnsIdentifierViolation domain with
  | some .Syntax => .error (.Malformed "dns-01 identifier is not a valid DNS name")
  | some .IpLiteral => .error (.Malformed "dns-01 is not valid for IP address identifiers")
  | none =>
    match nameFromAscii (acmeChallengeLabel ++ "." ++ domain ++ ".") with
    | some true => .ok ()
    | _ => .error (.Malformed "dns-01 identifier is not a valid DNS name")

def dnsChallenges : List String := ["http-01", "dns-01", "tls-alpn-01"]

def dnsChallengesNoDns01 : List String := ["http-01", "tls-alpn-01"]

def wildcardChallenges : List String := ["dns-01"]

def ipChallenges : List String := ["http-01"]

/-- Challenge types the server offers for this authorization. -/
def AuthzIdentifier.challengeTypes (a : AuthzIdentifier) : List String :=
  if a.idType = "ip" then ipChallenges
  else if a.wildcard then wildcardChallenges
  else match dns01QueryName nameFromAscii a.value with
    | .error _ => dnsChallengesNoDns01
    | .ok _ => dnsChallenges

def parseDns (value : String) : Result AuthzIdentifier := do
  if value.utf8ByteSize > maxDnsNameLen then
    throw (.Malformed "dns identifier is not a valid DNS name")
  let (base, wildcard) := match stripPrefix value wildcardPrefix with
    | some base => (base, true)
    | none => (value, false)
  if base.toList.contains '*' then
    throw (.RejectedIdentifier "only a single leftmost \"*.\" wildcard label is supported")
  validateDnsIdentifier base
  if wildcard && !base.toList.contains '.' then
    throw (.RejectedIdentifier "wildcard identifiers must have at least two labels after \"*.\"")
  if wildcard then
    match dns01QueryName nameFromAscii base with
    | .error _ => throw (.Malformed "wildcard base domain is too long for dns-01")
    | .ok _ => pure ()
  return ⟨"dns", base, wildcard⟩

/-- IPv4-mapped or IPv4-compatible; `::` and `::1` are neither. -/
def isIpv4Embedded (v6 : Net.Ipv6Addr) : Bool :=
  if (Net.toIpv4Mapped v6).isSome then true
  else
    let s := List.ofFn v6.segments
    (s.take 6).all (· = 0) && s.foldl (fun bits x => bits * 65536 + x.toNat) 0 > 1

def parseIp (value : String) : Result AuthzIdentifier :=
  match Net.parseIpAddr value with
  | none => .error (.Malformed "ip identifier is not a canonical IP address")
  | some ip =>
    if Net.fmtIpAddr ip ≠ value then
      .error (.Malformed "ip identifier is not a canonical IP address")
    else
      let embedded := match ip with
        | .v6 v6 => isIpv4Embedded v6
        | .v4 _ => false
      if embedded then
        .error (.RejectedIdentifier ("IPv4-mapped or IPv4-compatible IPv6 identifiers are not "
          ++ "supported; use the IPv4 address"))
      else .ok ⟨"ip", value, false⟩

/-- Parse one newOrder identifier into the authorization identifier. -/
def parseOrderIdentifier (id : Identifier) : Result AuthzIdentifier :=
  if id.idType = "dns" then parseDns nameFromAscii id.value
  else if id.idType = "ip" then parseIp id.value
  else .error (.UnsupportedIdentifier "only \"dns\" and \"ip\" identifier types are supported")

/-- The key under which two identifiers are the same: type, lower case value, wildcard flag. -/
def AuthzIdentifier.key (a : AuthzIdentifier) : String × String × Bool :=
  (a.idType, toAsciiLowercase a.value, a.wildcard)

instance lawfulBEq_key : LawfulBEq (String × String × Bool) := inferInstance

/-- The loop of `validateOrderIdentifiers`. -/
def validateOrderIdentifiers.loop : List Identifier → List (String × String × Bool) →
    List AuthzIdentifier → Result (List AuthzIdentifier)
  | [], _, out => .ok out
  | id :: ids, seen, out => do
    let authz ← parseOrderIdentifier nameFromAscii id
    if authz.key ∈ seen then
      throw (.Malformed "Identifiers list contains a duplicate identifier")
    validateOrderIdentifiers.loop ids (authz.key :: seen) (out ++ [authz])

/-- Validate a whole newOrder identifier list. -/
def validateOrderIdentifiers (ids : List Identifier) : Result (List AuthzIdentifier) :=
  if ids = [] then .error (.Malformed "Identifiers list cannot be empty")
  else if ids.length > maxOrderIdentifiers then
    .error (.Malformed s!"an order may contain at most {maxOrderIdentifiers} identifiers")
  else validateOrderIdentifiers.loop nameFromAscii ids [] []

end

end Ostrich.Acme
