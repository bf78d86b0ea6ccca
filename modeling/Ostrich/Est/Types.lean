import Ostrich.Acme.CaIntegration
import Ostrich.Common.Auth
import Ostrich.Est.Repository

/-!
# Errors, principals and requests of the EST service (`ostrich-est/src/`)

A principal is authenticated by an enrollment token, or has an account.  Only the former has the
role `EstEnrollee`, which is "never stored on a user account"; `Account` carries that.
-/

namespace Ostrich.Est

open Common

inductive Error where
  | Unauthorized
  | Forbidden (text : String)
  | BadRequest (text : String)
  | InvalidCsr (text : String)
  | Internal (text : String)
  | Database (e : Ca.DbError)
  /-- The handler panicked. -/
  | Panic
  deriving DecidableEq, Repr

abbrev Result := Except Error

/-- A user account, as a session or a client certificate gives it. -/
structure Account where
  user : AuthenticatedUser
  not_enrollee : Role.EstEnrollee ∉ user.roles

/-- The principal of an enrollment token. -/
def tokenPrincipal (id : Uuid) (identity : String) : AuthenticatedUser where
  id := id
  username := identity
  roles := [.EstEnrollee]
  certificateSubject := none

/-- `AuthenticatedUser::has_role`. -/
def hasRole (user : AuthenticatedUser) (role : Role) : Bool := user.roles.contains role

/-- How the requested certificate identity is authorized against the principal. -/
inductive EstIdentityPolicy where
  | MatchUsername
  | AccountAllowList
  deriving DecidableEq, Repr

end Ostrich.Est
