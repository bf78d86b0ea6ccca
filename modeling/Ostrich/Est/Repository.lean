import Ostrich.Ca.Repository

/-!
# The tables of the EST service (`ostrich-db/src/repository/est.rs`, `migrations/`)

A method of the repository is a `Query`: one SQL statement, which runs atomically (`Query.run`) at a
time of the database's clock.  An enrollment token is live while it has uses left and has not
expired; the column `revoked_at` is written and read by the listings only.
-/

namespace Ostrich.Est

open Ca (DbError Fault)
open Table

/-! ### Tables -/

/-- A row of `est_enrollment_tokens`. -/
structure EnrollmentToken where
  id : Uuid
  tokenHash : List UInt8
  identity : String
  profile : Option String
  createdBy : String
  expiresAt : DateTime
  usedAt : Option DateTime
  usedByCert : Option Uuid
  maxUses : ℤ
  usesRemaining : ℤ
  revokedAt : Option DateTime
  deriving DecidableEq, Repr

/-- A row of `est_enrollments`. -/
structure EstEnrollment where
  id : Uuid
  clientIdentifier : String
  enrollmentType : String
  csrDer : List UInt8
  certificateId : Option Uuid
  status : String
  profileName : Option String
  createdAt : DateTime
  updatedAt : DateTime
  deriving DecidableEq, Repr

/-- A row of `certificates`, as far as this service reads it. -/
structure CertificateRow where
  id : Uuid
  derEncoded : List UInt8
  deriving DecidableEq, Repr

/-- The tables. -/
structure Store where
  tokens : Keyed EnrollmentToken.id := .empty _
  enrollments : Keyed EstEnrollment.id := .empty _
  /-- `est_account_identities`: account and identity. -/
  identities : List (String × String) := []
  certificates : List CertificateRow := []

/-! ### Queries -/

/-- The methods of the repositories. -/
inductive Query where
  | createEnrollmentToken (id : Uuid) (tokenHash : List UInt8) (identity : String)
      (profile : Option String) (createdBy : String) (expiresAt : DateTime) (maxUses : ℤ)
  | findLiveEnrollmentToken (tokenHash : List UInt8)
  | consumeEnrollmentToken (id : Uuid) (usedByCert : Option Uuid)
  | refundEnrollmentToken (id : Uuid)
  | recordEnrollmentTokenCert (id certId : Uuid)
  | enrollmentTokenProfile (id : Uuid)
  | revokeEnrollmentToken (id : Uuid) (createdBy : Option String)
  | listAllowedIdentities (accountUsername : String)
  | createEnrollment (id : Uuid) (clientIdentifier enrollmentType : String) (csrDer : List UInt8)
      (status : String) (now : DateTime)
  | markEnrollmentIssued (id certificateId : Uuid) (profileName : String) (now : DateTime)
  | listEnrollmentsByClient (clientIdentifier : String)
  | findCertificateById (id : Uuid)

/-- What a query returns. -/
abbrev Query.Result : Query → Type
  | .createEnrollmentToken .. | .refundEnrollmentToken _ | .recordEnrollmentTokenCert .. => Unit
  | .findLiveEnrollmentToken _ => Option (Uuid × String × DateTime)
  | .consumeEnrollmentToken .. | .revokeEnrollmentToken .. => Bool
  | .enrollmentTokenProfile _ => Option String
  | .listAllowedIdentities _ => List String
  | .createEnrollment .. | .markEnrollmentIssued .. => EstEnrollment
  | .listEnrollmentsByClient _ => List EstEnrollment
  | .findCertificateById _ => Option CertificateRow

namespace EnrollmentToken

/-- `uses_remaining > 0 AND expires_at > now()`. -/
def live (now : DateTime) (t : EnrollmentToken) : Bool :=
  0 < t.usesRemaining && decide (Ca.kept now < t.expiresAt)

/-- Spend one use; the token is stamped when none is left. -/
def spend (now : DateTime) (usedByCert : Option Uuid) (t : EnrollmentToken) : EnrollmentToken :=
  { t with
    usesRemaining := t.usesRemaining - 1
    usedByCert := usedByCert.or t.usedByCert
    usedAt := if t.usesRemaining - 1 = 0 then some (Ca.kept now) else t.usedAt }

/-- Take back one use. -/
def refund (t : EnrollmentToken) : EnrollmentToken :=
  { t with usesRemaining := t.usesRemaining + 1 }

def revoke (now : DateTime) (t : EnrollmentToken) : EnrollmentToken :=
  { t with usesRemaining := 0, revokedAt := some (Ca.kept now) }

end EnrollmentToken

/-- The largest `INTEGER`. -/
def maxInteger : ℤ := 2147483647

/-- The error of a `REFERENCES certificates(id)` that does not hold. -/
def foreignKey : DbError :=
  .Query "insert or update on table violates foreign key constraint"

/-- The certificate that a row is to refer to is there. -/
def Store.hasCertificate (s : Store) (id : Uuid) : Bool := s.certificates.any (·.id = id)

/-- Insert into a table with a primary key. -/
def insertRow {α κ : Type} [DecidableEq κ] {key : α → κ} (row : α) (t : Keyed key) :
    Except DbError (Keyed key) :=
  match t.insert? row with
  | some t' => .ok t'
  | none => .error (.Query "duplicate key value violates unique constraint")

/-- Later rows first. -/
def latestFirst (a b : EstEnrollment) : Bool := decide (b.createdAt ≤ a.createdAt)

/-- What a statement returns, and the tables after it. -/
def Query.run (q : Query) (now : DateTime) (s : Store) : Except DbError (q.Result × Store) :=
  match q with
  | .createEnrollmentToken id tokenHash identity profile createdBy expiresAt maxUses =>
    if s.tokens.rows.any (·.tokenHash = tokenHash) then
      .error (.Query "duplicate key value violates unique constraint")
    else if maxUses < 1 then .error (.Query "new row violates check constraint")
    else do
      let row : EnrollmentToken :=
        { id, tokenHash, identity, profile, createdBy, expiresAt := Ca.kept expiresAt,
          usedAt := none, usedByCert := none, maxUses, usesRemaining := maxUses,
          revokedAt := none }
      let tokens ← insertRow row s.tokens
      return ((), { s with tokens })
  | .findLiveEnrollmentToken tokenHash =>
    let found := s.tokens.rows.find? fun t => t.tokenHash = tokenHash && t.live now
    .ok (found.map fun t => (t.id, t.identity, t.expiresAt), s)
  | .consumeEnrollmentToken id usedByCert =>
    let spent (t : EnrollmentToken) : Bool := t.id = id && t.live now
    if s.tokens.rows.any spent && !usedByCert.all s.hasCertificate then .error foreignKey
    else
      let tokens := s.tokens.modify spent (EnrollmentToken.spend now usedByCert) fun _ => rfl
      .ok (s.tokens.rows.any spent, { s with tokens })
  | .refundEnrollmentToken id =>
    if s.tokens.rows.any fun t => t.id = id && t.usesRemaining = maxInteger then
      .error (.Query "integer out of range")
    else
      let tokens := s.tokens.modify (·.id = id) EnrollmentToken.refund fun _ => rfl
      .ok ((), { s with tokens })
  | .recordEnrollmentTokenCert id certId =>
    if s.tokens.rows.any (·.id = id) && !s.hasCertificate certId then .error foreignKey
    else
      let tokens := s.tokens.modify (·.id = id) (fun t => { t with usedByCert := some certId })
        fun _ => rfl
      .ok ((), { s with tokens })
  | .enrollmentTokenProfile id => .ok ((s.tokens.get id).bind (·.profile), s)
  | .revokeEnrollmentToken id createdBy =>
    let revoked (t : EnrollmentToken) : Bool :=
      t.id = id && t.live now && createdBy.all (t.createdBy = ·)
    let tokens := s.tokens.modify revoked (EnrollmentToken.revoke now) fun _ => rfl
    .ok (s.tokens.rows.any revoked, { s with tokens })
  | .listAllowedIdentities accountUsername =>
    .ok (s.identities.filterMap fun (account, identity) =>
      if account = accountUsername then some identity else none, s)
  | .createEnrollment id clientIdentifier enrollmentType csrDer status time => do
    let row : EstEnrollment :=
      { id, clientIdentifier, enrollmentType, csrDer, certificateId := none, status,
        profileName := none, createdAt := Ca.kept time, updatedAt := Ca.kept time }
    let enrollments ← insertRow row s.enrollments
    return (row, { s with enrollments })
  | .markEnrollmentIssued id certificateId profileName time =>
    match s.enrollments.get id with
    | none => .error (.Query "no rows returned")
    | some row =>
      if !s.hasCertificate certificateId then .error foreignKey
      else
        let issued (e : EstEnrollment) : EstEnrollment :=
          { e with certificateId := some certificateId, profileName := some profileName,
                   status := "issued", updatedAt := Ca.kept time }
        let enrollments := s.enrollments.modify (·.id = id) issued fun _ => rfl
        .ok (issued row, { s with enrollments })
  | .listEnrollmentsByClient clientIdentifier =>
    .ok ((s.enrollments.rows.filter (·.clientIdentifier = clientIdentifier)).mergeSort
      latestFirst, s)
  | .findCertificateById id => .ok (s.certificates.find? (·.id = id), s)

/-- The reply to a query.  A statement can run without its reply arriving: then the error has what
it returned, which the programs do not see. -/
inductive DbReply (α : Type) where
  | ok (a : α)
  | error (e : DbError) (lost : Option α)
  deriving DecidableEq

/-- What the statement returned, if it ran. -/
def DbReply.effect {α : Type} : DbReply α → Option α
  | .ok a => some a
  | .error _ lost => lost

/-- Run a query over a connection that may fail. -/
def Query.exec (q : Query) (fault : Fault) (now : DateTime) (s : Store) :
    DbReply q.Result × Store :=
  match q.run now s with
  | .error e => (.error e none, s)
  | .ok (a, s') =>
    match fault with
    | .none => (.ok a, s')
    | .before => (.error (.Connection "connection lost") none, s)
    | .after => (.error (.Connection "connection lost") (some a), s')

end Ostrich.Est
