import Ostrich.Ca.Issuance

/-!
# The approval engine (`ostrich-ca/src/approval.rs`)

`from_record` reads the columns of a row back, so a request in memory is a copy of its row: what
the engine checks and writes is such a copy.
-/

namespace Ostrich.Ca

open Common Interleave

/-! ### Checks -/

/-- A user can decide a request of another one that is pending and has not expired, with a
permission. -/
def canDecide (permission : Permission) (required : String) (request : ApprovalRequestRecord)
    (user : AuthenticatedUser) : CaM Unit := do
  if request.requestorId = user.id then .fail .SelfApprovalProhibited
  else if !anyRoleHasPermission user.roles permission then .fail (.InsufficientRole required)
  else if request.status ≠ .Pending then
    .fail (.InvalidApprovalState request.status.name "Pending")
  else
    -- `is_expired`
    let now ← await .now
    if request.expiresAt < now then .fail (.ApprovalRequestExpired request.expiresAt)
    else return ()

/-- Check if user can approve this request. -/
def canApprove : ApprovalRequestRecord → AuthenticatedUser → CaM Unit :=
  canDecide .ApproveRequest "approval permission (ApproveRequest)"

/-- Check if user can reject this request. -/
def canReject : ApprovalRequestRecord → AuthenticatedUser → CaM Unit :=
  canDecide .RejectRequest "rejection permission (RejectRequest)"

/-! ### The engine -/

namespace ApprovalEngine

/-- Create new approval request. -/
def createRequest (env : Env) (requestType : RequestType) (requestor : AuthenticatedUser)
    (requestDetails : Json) : CaM ApprovalRequestRecord := do
  let now ← await .now
  match now.addSeconds env.expirationDuration with
  | none => .fail .Panic
  | some expiresAt =>
    let id ← await .newUuid
    return { id, requestType, certificateId := none, requestorId := requestor.id,
             requestorUsername := requestor.username, status := .Pending, requestDetails,
             createdAt := now, expiresAt, approvedAt := none, completedAt := none }

/-- The decision of an approver, now. -/
def newDecision (decision : Decision) (reason justification : String)
    (request : ApprovalRequestRecord) (approver : AuthenticatedUser) :
    CaM ApprovalDecisionRecord := do
  let id ← await .newUuid
  let decidedAt ← await .now
  return { id, requestId := request.id, approverId := approver.id,
           approverUsername := approver.username, approverRoles := approver.roles, decision,
           reason := some reason, justification := some justification, decidedAt,
           validationOverridden := false }

/-- Approve request: the decision, and the request with it. -/
def approveRequest (request : ApprovalRequestRecord) (approver : AuthenticatedUser)
    (justification : String) : CaM (ApprovalDecisionRecord × ApprovalRequestRecord) := do
  canApprove request approver
  let decision ← newDecision .Approved "Approved" justification request approver
  return (decision, { request with status := .Approved, approvedAt := some decision.decidedAt })

/-- Reject request: the decision, and the request with it. -/
def rejectRequest (request : ApprovalRequestRecord) (approver : AuthenticatedUser)
    (reason justification : String) : CaM (ApprovalDecisionRecord × ApprovalRequestRecord) := do
  canReject request approver
  let decision ← newDecision .Rejected reason justification request approver
  return (decision, { request with status := .Rejected })

end ApprovalEngine

end Ostrich.Ca
