import Ostrich.Est.CaIntegration
import Ostrich.X509.Certificate

/-!
# The identity checks of EST (`ostrich-est/src/rest.rs`)

An enrollment must name the principal: `csrIdentityMatchesPrincipal` and `tokenIdentityMatches`
look for one name that is the principal's, `allowListed` wants every name in the allow-list.  A
re-enrollment must have the subject and the names of a certificate that was issued before
(`renews`).
-/

namespace Ostrich.Est

open Common Text X509

/-- The value of a SAN text `TYPE:value`. -/
def sanValue (san : String) : String :=
  match splitOnce ':' san with
  | some (_, value) => value
  | none => san

/-- The CSR has the username as its common name or as a SAN value. -/
def csrIdentityMatchesPrincipal (username : String) (cn : Option String) (sans : List String) :
    Bool :=
  decide (cn = some username) || sans.any (sanValue · = username)

/-- The set of identities a CSR asserts: its CommonName plus each SAN value. -/
def csrAssertedIdentities (cn : Option String) (sans : List String) : List String :=
  cn.toList ++ sans.map sanValue

/-- Canonicalize an identity for storage and comparison. -/
def normalizeIdentity (identity : String) : String := toAsciiLowercase (trim identity)

/-- The CSR names the identity of the token, in canonical form. -/
def tokenIdentityMatches (username : String) (cn : Option String) (sans : List String) : Bool :=
  let want := normalizeIdentity username
  cn.any (normalizeIdentity · = want) || sans.any fun san => normalizeIdentity (sanValue san) = want

/-- Every identity that the CSR asserts is in the allow-list, in canonical form. -/
def allowListed (allowed asserted : List String) : Bool :=
  asserted.all fun id => (allowed.map normalizeIdentity).contains (normalizeIdentity id)

/-- The order of strings by their bytes. -/
def stringLe (a b : String) : Bool := decide (utf8 a ≤ utf8 b)

/-- Canonicalize a SAN list for set comparison: trimmed, sorted and de-duplicated. -/
def normalizeSanSet (sans : List String) : List String :=
  ((sans.map trim).mergeSort stringLe).destutter (· ≠ ·)

/-- The CSR has the subject and the names of the certificate. -/
def renews (parsedCsr : ParsedCsr) (prior : ParsedCertificate) : Bool :=
  trim prior.subjectDn = trim parsedCsr.subjectDn &&
    normalizeSanSet prior.subjectAltNames = normalizeSanSet parsedCsr.subjectAlternativeNames

/-! ### Profiles -/

def efsProfileName : String := "efs"

/-- Certificate profiles an operator may pin to an EST enrollment token. -/
def offerableEstProfiles : List String :=
  ["tls_client", "tls_server", "tls_server_client", efsProfileName]

/-- Rank of a profile within the TLS ladder. -/
def profileCapabilityRank : String → ℕ
  | "tls_server_client" => 2
  | "tls_server" | "tls_client" => 1
  | _ => 0

/-- Fold the broadest offerable profile seen so far with another candidate. -/
def broadestEstProfile (current candidate : Option String) : Option String :=
  match current, candidate.filter (offerableEstProfiles.contains ·) with
  | some cur, some cand =>
    if decide (cur = efsProfileName) ≠ decide (cand = efsProfileName) then some cur
    else if profileCapabilityRank cur < profileCapabilityRank cand then some cand
    else some cur
  | some cur, none => some cur
  | none, some cand => some cand
  | none, none => none

end Ostrich.Est
