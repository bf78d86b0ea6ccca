import Mathlib.Data.List.MinMax
import Ostrich.Ca.Types
import Ostrich.Lib.Table

/-!
# The tables of the certificate authority (`ostrich-db/src/repository/`, `migrations/`)

A method of a repository is a `Query`: one SQL statement, which runs atomically (`Query.run`) at a
time of the database's clock.  A primary key or a `UNIQUE` constraint that does not hold is an
error, and so is an `UPDATE … RETURNING` that finds no row (`fetch_one`).

A statement can fail after it ran, so that its caller gets an error for a change that was made; the
reply says which (`DbReply.applied`), which the programs do not look at.
-/

namespace Ostrich.Ca

open Common Table

/-- The tables. -/
structure Store where
  certificates : List Certificate := []
  crls : List Crl := []
  requests : List ApprovalRequestRecord := []
  decisions : List ApprovalDecisionRecord := []

/-- The methods of the repositories. -/
inductive Query where
  | createCertificate (cert : Certificate)
  | findCertificateById (id : Uuid)
  | findRevoked (caId : Uuid)
  | revoke (id : Uuid) (reason : ℤ)
  | createCrl (crl : Crl)
  | findLatestCrl (caId : Uuid)
  | nextCrlNumber (caId : Uuid)
  | createRequest (request : ApprovalRequestRecord)
  | getRequest (id : Uuid)
  | updateRequestStatus (id : Uuid) (status : ApprovalStatus) (approvedAt : Option DateTime)
  | markRequestCompleted (id certificateId : Uuid)
  | expireOldRequests
  | createDecision (decision : ApprovalDecisionRecord)
  | ensureUser (user : AuthenticatedUser)

/-- What a query returns. -/
abbrev Query.Result : Query → Type
  | .createCertificate _ | .revoke .. | .createCrl _ | .createRequest _ | .createDecision _ => Unit
  | .updateRequestStatus .. | .markRequestCompleted .. | .expireOldRequests | .ensureUser _ => Unit
  | .findCertificateById _ => Option Certificate
  | .findRevoked _ => List Certificate
  | .findLatestCrl _ => Option Crl
  | .nextCrlNumber _ => ℤ
  | .getRequest _ => Option ApprovalRequestRecord

/-! ### Statements -/

/-- `INSERT` into a table where `taken` says which rows have a key of the new one. -/
def insertRow {α : Type} (rows : List α) (taken : α → Bool) (row : α) : Except DbError (List α) :=
  if rows.any taken then .error (.Query "duplicate key value violates unique constraint")
  else .ok (rows ++ [row])

/-- `UPDATE … WHERE p RETURNING *` with `fetch_one`. -/
def updateRow {α : Type} (rows : List α) (p : α → Bool) (f : α → α) : Except DbError (List α) :=
  if rows.any p then .ok (updateWhere p f rows) else .error (.Query "no rows returned")

/-- The revoked certificates of a CA, in some order. -/
def Store.revokedOf (s : Store) (caId : Uuid) : List Certificate :=
  s.certificates.filter fun c => c.caId = caId && c.revoked

/-- The full CRLs of a CA. -/
def Store.fullCrls (s : Store) (caId : Uuid) : List Crl :=
  s.crls.filter fun crl => crl.caId = caId && !crl.isDelta

/-- `COALESCE(MAX(crl_number), 0)`. -/
def Store.maxCrlNumber (s : Store) (caId : Uuid) : ℤ :=
  match ((s.crls.filter fun crl => crl.caId = caId).map (·.crlNumber)).max? with
  | some n => n
  | none => 0

/-- The last number of a `BIGINT`. -/
def maxBigint : ℤ := 9223372036854775807

/-- The time that a column gives back: whole microseconds. -/
def kept (t : DateTime) : DateTime := .ofMicros t.toMicros

/-- The certificate, revoked. -/
def Certificate.asRevoked (now : DateTime) (reason : ℤ) (c : Certificate) : Certificate :=
  { c with revoked := true, revocationTime := some (kept now), revocationReason := some reason }

/-- The request, completed by a certificate. -/
def ApprovalRequestRecord.asCompleted (now : DateTime) (certificateId : Uuid)
    (r : ApprovalRequestRecord) : ApprovalRequestRecord :=
  { r with status := .Completed, certificateId := some certificateId,
           completedAt := some (kept now) }

/-- The row of a CRL. -/
def Crl.stored (crl : Crl) : Crl :=
  { crl with thisUpdate := kept crl.thisUpdate, nextUpdate := kept crl.nextUpdate }

/-- The row of a request. -/
def ApprovalRequestRecord.stored (r : ApprovalRequestRecord) : ApprovalRequestRecord :=
  { r with createdAt := kept r.createdAt, expiresAt := kept r.expiresAt }

/-- The row of a decision. -/
def ApprovalDecisionRecord.stored (d : ApprovalDecisionRecord) : ApprovalDecisionRecord :=
  { d with decidedAt := kept d.decidedAt }

/-- One statement, at a time of the clock. -/
def Query.run (q : Query) (now : DateTime) (s : Store) : Except DbError (q.Result × Store) :=
  match q with
  | .createCertificate cert => do
    let certificates ← insertRow s.certificates
      (fun c => c.id = cert.id || c.caId = cert.caId && c.serialNumber = cert.serialNumber) cert
    return ((), { s with certificates })
  | .findCertificateById id => .ok (s.certificates.find? (·.id = id), s)
  | .findRevoked caId => .ok (s.revokedOf caId, s)
  | .revoke id reason =>
    let unrevoked (c : Certificate) : Bool := c.id = id && !c.revoked
    if s.certificates.any unrevoked then
      let certificates := updateWhere unrevoked (·.asRevoked now reason) s.certificates
      .ok ((), { s with certificates })
    else .error (.NotFound "Certificate not found or already revoked")
  | .createCrl crl => do
    let crls ← insertRow s.crls (fun c => c.caId = crl.caId && c.crlNumber = crl.crlNumber)
      crl.stored
    return ((), { s with crls })
  | .findLatestCrl caId =>
    .ok ((s.fullCrls caId).find? fun crl => (s.fullCrls caId).all fun other =>
      other.crlNumber ≤ crl.crlNumber, s)
  | .nextCrlNumber caId =>
    if s.maxCrlNumber caId = maxBigint then .error (.Query "bigint out of range")
    else .ok (s.maxCrlNumber caId + 1, s)
  | .createRequest request => do
    let requests ← insertRow s.requests (fun r => r.id = request.id) request.stored
    return ((), { s with requests })
  | .getRequest id => .ok (s.requests.find? (·.id = id), s)
  | .updateRequestStatus id status approvedAt => do
    let requests ← updateRow s.requests (fun r => r.id = id) fun r =>
      { r with status, approvedAt := approvedAt.map kept }
    return ((), { s with requests })
  | .markRequestCompleted id certificateId => do
    let requests ← updateRow s.requests (fun r => r.id = id) (·.asCompleted now certificateId)
    return ((), { s with requests })
  | .expireOldRequests =>
    let requests := updateWhere (fun r => r.status = .Pending && decide (r.expiresAt < kept now))
      (fun r => { r with status := .Expired }) s.requests
    .ok ((), { s with requests })
  | .createDecision decision => do
    let decisions ← insertRow s.decisions (fun d => d.id = decision.id
      || d.requestId = decision.requestId && d.approverId = decision.approverId) decision.stored
    return ((), { s with decisions })
  | .ensureUser _ => .ok ((), s)

/-- The rows with this serial number; `find_by_serial` returns one of them. -/
def Store.withSerial (s : Store) (serialNumber : List UInt8) : List Certificate :=
  s.certificates.filter fun c => c.serialNumber = serialNumber

/-! ### Connections that fail -/

/-- How a statement can fail besides its constraints: before it ran, or after it ran but before its
result arrived. -/
inductive Fault where
  | none
  | before
  | after
  deriving DecidableEq, Repr

/-- The result of a statement; `applied` says whether it ran although there is no result. -/
inductive DbReply (α : Type) where
  | ok (a : α)
  | error (e : DbError) (applied : Bool)
  deriving DecidableEq, Repr

/-- The statement ran. -/
def DbReply.applied {α : Type} : DbReply α → Bool
  | .ok _ => true
  | .error _ applied => applied

/-- Run a query over a connection that may fail. -/
def Query.exec (q : Query) (fault : Fault) (now : DateTime) (s : Store) :
    DbReply q.Result × Store :=
  match q.run now s with
  | .error e => (.error e false, s)
  | .ok (a, s') =>
    match fault with
    | .none => (.ok a, s')
    | .before => (.error (.Connection "connection lost") false, s)
    | .after => (.error (.Connection "connection lost") true, s')

end Ostrich.Ca
