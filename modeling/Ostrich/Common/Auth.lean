import Ostrich.Lib.Uuid

/-!
# Roles and permissions (`ostrich-common/src/auth/`)

`permissionsForRole` is the matrix of the roles; a user holds a permission if one of the user's
roles does (`anyRoleHasPermission`).
-/

namespace Ostrich.Common

inductive Role where
  | Administrator
  | Auditor
  | OperationsStaff
  | RaStaff
  | Aor
  | EstEnrollee
  | EstDevice
  | PkiSponsor
  | PkiSponsorAdmin
  | RegistrationAuthority
  | CaaAdmin
  | NpeAuditor
  deriving DecidableEq, Repr

inductive Permission where
  | IssueCertificate
  | RevokeCertificate
  | RenewCertificate
  | ViewCertificate
  | GenerateCrl
  | PublishCrl
  | ViewCrl
  | SubmitRequest
  | ApproveRequest
  | RejectRequest
  | ViewRequests
  | GenerateEstToken
  | BulkEnroll
  | OverrideValidation
  | ManageNamespaces
  | ReadAuditLog
  | ExportAuditLog
  | SearchAuditLog
  | ModifyConfig
  | ViewConfig
  | CreateUser
  | ModifyUser
  | DeleteUser
  | AssignRoles
  | ViewUsers
  | UnlockAccount
  | ImportTrustAnchor
  | RemoveTrustAnchor
  | ViewTrustAnchors
  | GenerateCaKey
  | BackupCaKey
  | RecoverKey
  | ManageOcsp
  | ViewOcspStatus
  | ViewServiceHealth
  | RestartService
  deriving DecidableEq, Repr

/-- All permissions granted to a role. -/
def permissionsForRole : Role → List Permission
  | .Administrator =>
    [.ModifyConfig, .ViewConfig, .CreateUser, .ModifyUser, .DeleteUser, .AssignRoles, .ViewUsers,
      .UnlockAccount, .ImportTrustAnchor, .RemoveTrustAnchor, .ViewTrustAnchors, .GenerateCaKey,
      .BackupCaKey, .ViewServiceHealth, .RestartService, .GenerateEstToken, .ViewCertificate,
      .ViewCrl, .ViewRequests, .ViewOcspStatus]
  | .Auditor =>
    [.ReadAuditLog, .ExportAuditLog, .SearchAuditLog, .ViewCertificate, .ViewCrl, .ViewRequests,
      .ViewConfig, .ViewUsers, .ViewTrustAnchors, .ViewOcspStatus, .ViewServiceHealth]
  | .OperationsStaff =>
    [.IssueCertificate, .RevokeCertificate, .RenewCertificate, .ViewCertificate, .GenerateCrl,
      .PublishCrl, .ViewCrl, .ManageOcsp, .ViewOcspStatus, .ViewRequests, .GenerateEstToken,
      .ViewServiceHealth]
  | .RaStaff =>
    [.ApproveRequest, .RejectRequest, .ViewRequests, .SubmitRequest, .ViewCertificate, .ViewCrl,
      .ViewServiceHealth]
  | .Aor => [.ApproveRequest, .RejectRequest, .ViewRequests, .SubmitRequest, .ViewCertificate]
  | .EstEnrollee => [.SubmitRequest]
  | .EstDevice => [.RenewCertificate]
  | .PkiSponsor =>
    [.SubmitRequest, .RenewCertificate, .ViewRequests, .ViewCertificate, .GenerateEstToken]
  | .PkiSponsorAdmin =>
    [.SubmitRequest, .RenewCertificate, .ViewRequests, .ViewCertificate, .GenerateEstToken,
      .BulkEnroll]
  | .RegistrationAuthority =>
    [.ApproveRequest, .RejectRequest, .ViewRequests, .RevokeCertificate, .OverrideValidation,
      .ViewCertificate, .ReadAuditLog]
  | .CaaAdmin =>
    [.ModifyConfig, .ViewConfig, .CreateUser, .ModifyUser, .DeleteUser, .AssignRoles, .ViewUsers,
      .ManageNamespaces, .ReadAuditLog]
  | .NpeAuditor => [.ReadAuditLog, .ViewCertificate, .ViewRequests]

/-- Check if a role has a specific permission. -/
def roleHasPermission (role : Role) (permission : Permission) : Bool :=
  (permissionsForRole role).contains permission

/-- Check if any of the given roles has the specified permission. -/
def anyRoleHasPermission (roles : List Role) (permission : Permission) : Bool :=
  roles.any (roleHasPermission · permission)

/-- A user, as the handlers see one. -/
structure AuthenticatedUser where
  id : Uuid
  username : String
  roles : List Role
  certificateSubject : Option String
  deriving DecidableEq, Repr

end Ostrich.Common
