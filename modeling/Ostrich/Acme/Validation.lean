import Ostrich.Acme.Types
import Ostrich.Lib.IpBlocks

/-!
# HTTP-01 validation (`ostrich-acme/src/validation.rs`)

The validator fetches the challenge from the identifier's host and follows redirects by itself: for
every hop it looks the host up, refuses the hop if one of the addresses is on the deny list, and
connects to the first one.  The URL library is a parameter; what comes from the network (answers of
the resolver, responses) is given hop by hop.  A run gives the addresses that were connected to,
with the result.
-/

namespace Ostrich.Acme

open Net

/-- True if `ip` must not be a challenge-validation target. -/
def isDisallowedV4 (v4 : Ipv4Addr) : Bool :=
  v4.isUnspecified || v4.isLoopback || v4.isPrivate || v4.isLinkLocal || v4.isBroadcast
    || v4.isDocumentation || v4.isMulticast || v4.octet 0 = 0
    || (v4.octet 0 = 100 && 64 ≤ v4.octet 1 && v4.octet 1 < 128)
    || (v4.octet 0 = 192 && v4.octet 1 = 0 && v4.octet 2 = 0) || 240 ≤ v4.octet 0

/-- True if `ip` must not be a challenge-validation target. -/
def isDisallowedIp : IpAddr → Bool
  | .v4 v4 => isDisallowedV4 v4
  | .v6 v6 =>
    match toIpv4Mapped v6 with
    | some mapped => isDisallowedV4 mapped
    | none =>
      v6.isUnspecified || v6.isLoopback || v6.isMulticast
        || v6.segments 0 &&& 0xfe00 = 0xfc00 || v6.segments 0 &&& 0xffc0 = 0xfe80

/-- Require every resolved address to be globally routable, and give the first one; `none` is an
answer that failed. -/
def resolvePublic (host : String) (answer : Option (List IpAddr)) : Except Error IpAddr :=
  match answer with
  | none => .error (.Dns s!"DNS resolution failed for {host}")
  | some [] => .error (.Dns s!"{host} did not resolve to any address")
  | some (first :: rest) =>
    if (first :: rest).any isDisallowedIp then
      .error (.RejectedIdentifier
        s!"Refusing to validate {host}: it does not resolve to a publicly routable address")
    else .ok first

/-! ### URLs and responses -/

/-- The URL library. -/
structure UrlLib where
  Url : Type
  parse : String → Option Url
  scheme : Url → String
  hostStr : Url → Option String
  join : Url → String → Option Url

/-- A response: the status, the text of the `Location` header, and the body. -/
structure Http01Response where
  status : ℕ
  location : Option String
  body : Option String

/-- What comes from the network for a hop: the addresses of the host, whether the client can be
built, and the response; `none` where the step fails. -/
structure Hop where
  answer : Option (List IpAddr)
  built : Except String Unit
  response : Option Http01Response

structure Http01Validator where
  maxRedirects : ℕ
  httpPort : UInt16
  allowPrivateDomains : Bool

/-- `Http01Validator::new`. -/
def Http01Validator.new : Http01Validator where
  maxRedirects := 10
  httpPort := 80
  allowPrivateDomains := false

/-- The URL of the challenge. -/
def http01ChallengeUrl (domain : String) (port : UInt16) (token : String) : String :=
  let host := match parseIpAddr domain with
    | some (.v6 v6) => "[" ++ fmtIpv6 v6 ++ "]"
    | _ => domain
  let number := port.toNat
  if port = 80 then s!"http://{host}/.well-known/acme-challenge/{token}"
  else s!"http://{host}:{number}/.well-known/acme-challenge/{token}"

/-- The host to connect to, without the brackets of an IPv6 literal. -/
def urlConnectHost (lib : UrlLib) (url : lib.Url) : Option String :=
  (lib.hostStr url).map fun host =>
    match host.toList with
    | '[' :: rest => if rest.getLast? = some ']' then String.ofList rest.dropLast else host
    | _ => host

def http01ConnectionError (domain : String) : Error :=
  .Connection s!"HTTP-01 request to {domain} failed"

def http01StatusError (domain : String) (status : ℕ) : Error :=
  .IncorrectResponse s!"HTTP-01 request to {domain} returned unexpected HTTP status {status}"

/-- The final response. -/
def finalResponse (domain expected : String) (response : Http01Response) : Except Error Bool :=
  if response.status / 100 ≠ 2 then .error (http01StatusError domain response.status)
  else match response.body with
    | none => .error (http01ConnectionError domain)
    | some body => .ok (Text.trim body = expected)

/-- The loop over the hops, from hop `i` on: the addresses that were connected to, and the
result. -/
def follow (lib : UrlLib) (domain expected : String) (hop : ℕ → Hop) :
    (fuel : ℕ) → ℕ → lib.Url → List IpAddr × Except Error Bool
  | 0, _, _ => ([], .error (.IncorrectResponse
      s!"HTTP-01 validation for {domain} exceeded the redirect limit"))
  | fuel + 1, i, url =>
    if lib.scheme url ≠ "http" ∧ lib.scheme url ≠ "https" then
      ([], .error (.IncorrectResponse
        s!"HTTP-01 redirect for {domain} used a disallowed URL scheme"))
    else match urlConnectHost lib url with
      | none => ([], .error (.Malformed "Challenge URL has no host"))
      | some host =>
        match resolvePublic host (hop i).answer with
        | .error e => ([], .error e)
        | .ok addr =>
          match (hop i).built with
          | .error e => ([], .error (.ServerInternal s!"Failed to build HTTP client: {e}"))
          | .ok () =>
            match (hop i).response with
            | none => ([addr], .error (http01ConnectionError domain))
            | some response =>
              if response.status / 100 = 3 then
                match response.location with
                | none => ([addr], .error (.IncorrectResponse
                    s!"HTTP-01 redirect for {domain} had no usable Location header"))
                | some location =>
                  match lib.join url location with
                  | none => ([addr], .error (.IncorrectResponse
                      s!"HTTP-01 redirect for {domain} had an invalid Location header"))
                  | some next =>
                    let (connected, result) := follow lib domain expected hop fuel (i + 1) next
                    (addr :: connected, result)
              else ([addr], finalResponse domain expected response)

/-- Validate HTTP-01 challenge.  `shared` is what the permissive client of the development override
connects to, and its response. -/
def Http01Validator.validate (v : Http01Validator) (lib : UrlLib) (domain token thumbprint : String)
    (shared : List IpAddr × Option Http01Response) (hop : ℕ → Hop) :
    List IpAddr × Except Error Bool :=
  let expected := s!"{token}.{thumbprint}"
  let initial := http01ChallengeUrl domain v.httpPort token
  if v.allowPrivateDomains then
    match shared.2 with
    | none => (shared.1, .error (http01ConnectionError domain))
    | some response => (shared.1, finalResponse domain expected response)
  else match lib.parse initial with
    | none => ([], .error (.Malformed
        s!"Identifier {domain} does not form a valid HTTP-01 challenge URL"))
    | some url => follow lib domain expected hop (v.maxRedirects + 1) 0 url

end Ostrich.Acme
