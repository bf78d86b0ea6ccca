import Mathlib.Data.List.Sort
import Ostrich.Acme.Types
import Ostrich.Lib.Table

/-!
# The ACME tables (`ostrich-db/src/repository/acme.rs`, `migrations/`)

`Store` holds the rows of the five ACME tables.  A method of `AcmeRepository` is a `Query`: one SQL
statement, which runs atomically (`Query.run`).  The ids that it draws and the time that it reads
come from `Drawn`.  A primary key, `UNIQUE` or foreign key that does not hold is an error, and so
is an `UPDATE … RETURNING` that finds no row (`fetch_one`).
-/

namespace Ostrich.Acme

open Table

/-- The five tables. -/
structure Store where
  accounts : List AcmeAccount := []
  orders : List AcmeOrder := []
  authorizations : List AcmeAuthorization := []
  challenges : List AcmeChallenge := []
  nonces : List AcmeNonce := []
  deriving DecidableEq, Repr

/-- The methods of `AcmeRepository` that the service uses. -/
inductive Query where
  | createAccount (accountId jwkThumbprint : String) (publicKeyJwk : Jwk) (contact : List String)
      (status : String) (tosAgreed : Bool)
  | findAccountByJwk (jwkThumbprint : String)
  | findAccountById (accountId : String)
  | findAccountByUuid (id : Uuid)
  | updateAccount (accountId : String) (contact : Option (List String)) (status : Option String)
  | createOrder (orderId : String) (accountId : Uuid) (status : String)
      (identifiers : List Identifier) (notBefore notAfter : Option DateTime) (expires : DateTime)
  | findOrderById (orderId : String)
  | findOrderByUuid (id : Uuid)
  | updateOrderStatus (orderId : Uuid) (status : String)
  | updateOrderCertificate (orderId certificateId : Uuid) (csrDer : List UInt8)
  | createAuthorization (authorizationId : String) (orderId : Uuid)
      (identifierType identifierValue status : String) (expires : DateTime) (wildcard : Bool)
  | findAuthorizationById (authorizationId : String)
  | findAuthorizationByUuid (id : Uuid)
  | listAuthorizationsByOrder (orderId : Uuid)
  | updateAuthorizationStatus (authorizationId status : String)
  | createChallenge (challengeId : String) (authorizationId : Uuid)
      (challengeType token status : String)
  | findChallengeById (challengeId : String)
  | listChallengesByAuthorization (authorizationId : Uuid)
  | updateChallengeStatus (challengeId status : String) (validatedAt : Option DateTime)
      (errorDetail : Option ProblemDocument)
  | createNonce (nonce : String) (expiresAt : DateTime)
  | consumeNonce (nonce : String)
  deriving DecidableEq, Repr

/-- What a query returns. -/
abbrev Query.Result : Query → Type
  | .createAccount .. | .updateAccount .. => AcmeAccount
  | .findAccountByJwk .. | .findAccountById .. | .findAccountByUuid .. => Option AcmeAccount
  | .createOrder .. | .updateOrderStatus .. | .updateOrderCertificate .. => AcmeOrder
  | .findOrderById .. | .findOrderByUuid .. => Option AcmeOrder
  | .createAuthorization .. | .updateAuthorizationStatus .. => AcmeAuthorization
  | .findAuthorizationById .. | .findAuthorizationByUuid .. => Option AcmeAuthorization
  | .listAuthorizationsByOrder .. => List AcmeAuthorization
  | .createChallenge .. | .updateChallengeStatus .. => AcmeChallenge
  | .findChallengeById .. => Option AcmeChallenge
  | .listChallengesByAuthorization .. => List AcmeChallenge
  | .createNonce .. => AcmeNonce
  | .consumeNonce .. => Bool

/-- What a method draws or looks up outside the ACME tables: `Uuid::new_v4()`, `Utc::now()`, and
whether `certificates` has the certificate that an order is to refer to. -/
structure Drawn where
  uuid : Uuid
  now : DateTime
  certificateExists : Bool
  deriving Repr

/-! ### Statements -/

/-- `INSERT … RETURNING *` into a table whose `keys` must be new. -/
def insertRow {α : Type} (rows : List α) (taken : α → Bool) (row : α) :
    Except DbError (α × List α) :=
  if rows.any taken then .error (.Constraint "unique") else .ok (row, rows ++ [row])

/-- `UPDATE … WHERE p RETURNING *` with `fetch_one`. -/
def updateRow {α : Type} (rows : List α) (p : α → Bool) (f : α → α) :
    Except DbError (α × List α) :=
  match rows.find? p with
  | none => .error .RowNotFound
  | some row => .ok (f row, updateWhere p f rows)

/-- `ORDER BY created_at`. -/
def orderByCreatedAt {α : Type} (createdAt : α → DateTime) (rows : List α) : List α :=
  rows.insertionSort fun a b => createdAt a ≤ createdAt b

/-- One statement. -/
def Query.run (q : Query) (d : Drawn) (s : Store) : Except DbError (q.Result × Store) :=
  match q with
  | .createAccount accountId jwkThumbprint publicKeyJwk contact status tosAgreed => do
    let (row, accounts) ← insertRow s.accounts
      (fun a => a.id = d.uuid || a.accountId = accountId || a.jwkThumbprint = jwkThumbprint)
      ⟨d.uuid, accountId, jwkThumbprint, publicKeyJwk, contact, status, tosAgreed, d.now, d.now⟩
    return (row, { s with accounts })
  | .findAccountByJwk jwkThumbprint =>
    .ok (s.accounts.find? fun a => a.jwkThumbprint = jwkThumbprint, s)
  | .findAccountById accountId => .ok (s.accounts.find? fun a => a.accountId = accountId, s)
  | .findAccountByUuid id => .ok (s.accounts.find? fun a => a.id = id, s)
  | .updateAccount accountId contact status => do
    let (row, accounts) ← updateRow s.accounts (fun a => a.accountId = accountId) fun a =>
      { a with contact := contact.getD a.contact, status := status.getD a.status,
               updatedAt := d.now }
    return (row, { s with accounts })
  | .createOrder orderId accountId status identifiers notBefore notAfter expires =>
    if s.accounts.all fun a => a.id ≠ accountId then .error (.Constraint "foreign key")
    else do
      let (row, orders) ← insertRow s.orders (fun o => o.id = d.uuid || o.orderId = orderId)
        ⟨d.uuid, orderId, accountId, status, identifiers, notBefore, notAfter, expires, none, none,
          d.now, d.now⟩
      return (row, { s with orders })
  | .findOrderById orderId => .ok (s.orders.find? fun o => o.orderId = orderId, s)
  | .findOrderByUuid id => .ok (s.orders.find? fun o => o.id = id, s)
  | .updateOrderStatus orderId status => do
    let (row, orders) ← updateRow s.orders (fun o => o.id = orderId) fun o =>
      { o with status, updatedAt := d.now }
    return (row, { s with orders })
  | .updateOrderCertificate orderId certificateId csrDer =>
    if !d.certificateExists then .error (.Constraint "foreign key")
    else do
      let (row, orders) ← updateRow s.orders (fun o => o.id = orderId) fun o =>
        { o with certificateId := some certificateId, csrDer := some csrDer, updatedAt := d.now }
      return (row, { s with orders })
  | .createAuthorization authorizationId orderId identifierType identifierValue status expires
      wildcard =>
    if s.orders.all fun o => o.id ≠ orderId then .error (.Constraint "foreign key")
    else do
      let (row, authorizations) ← insertRow s.authorizations
        (fun a => a.id = d.uuid || a.authorizationId = authorizationId)
        ⟨d.uuid, authorizationId, orderId, identifierType, identifierValue, status, expires,
          wildcard, d.now, d.now⟩
      return (row, { s with authorizations })
  | .findAuthorizationById authorizationId =>
    .ok (s.authorizations.find? fun a => a.authorizationId = authorizationId, s)
  | .findAuthorizationByUuid id => .ok (s.authorizations.find? fun a => a.id = id, s)
  | .listAuthorizationsByOrder orderId =>
    .ok (orderByCreatedAt (·.createdAt) (s.authorizations.filter fun a => a.orderId = orderId), s)
  | .updateAuthorizationStatus authorizationId status => do
    let (row, authorizations) ← updateRow s.authorizations
      (fun a => a.authorizationId = authorizationId) fun a => { a with status, updatedAt := d.now }
    return (row, { s with authorizations })
  | .createChallenge challengeId authorizationId challengeType token status =>
    if s.authorizations.all fun a => a.id ≠ authorizationId then
      .error (.Constraint "foreign key")
    else do
      let (row, challenges) ← insertRow s.challenges
        (fun c => c.id = d.uuid || c.challengeId = challengeId)
        ⟨d.uuid, challengeId, authorizationId, challengeType, token, status, none, none, d.now,
          d.now⟩
      return (row, { s with challenges })
  | .findChallengeById challengeId =>
    .ok (s.challenges.find? fun c => c.challengeId = challengeId, s)
  | .listChallengesByAuthorization authorizationId =>
    .ok (orderByCreatedAt (·.createdAt)
      (s.challenges.filter fun c => c.authorizationId = authorizationId), s)
  | .updateChallengeStatus challengeId status validatedAt errorDetail => do
    let (row, challenges) ← updateRow s.challenges (fun c => c.challengeId = challengeId) fun c =>
      { c with status, validatedAt, errorDetail, updatedAt := d.now }
    return (row, { s with challenges })
  | .createNonce nonce expiresAt => do
    let (row, nonces) ← insertRow s.nonces (fun n => n.nonce = nonce) ⟨nonce, d.now, expiresAt⟩
    return (row, { s with nonces })
  | .consumeNonce nonce =>
    .ok (s.nonces.any fun n => n.nonce = nonce && d.now < n.expiresAt,
      { s with nonces := s.nonces.filter fun n => !(n.nonce = nonce && d.now < n.expiresAt) })

/-- How a statement can fail besides its constraints: before it ran, or after it ran but before
its result arrived. -/
inductive Fault where
  | none
  | before
  | after
  deriving DecidableEq, Repr

/-- Run a query over a connection that may fail. -/
def Query.exec (q : Query) (fault : Fault) (d : Drawn) (s : Store) :
    Except DbError q.Result × Store :=
  match fault, q.run d s with
  | .before, _ => (.error .Connection, s)
  | _, .error e => (.error e, s)
  | .none, .ok (a, s') => (.ok a, s')
  | .after, .ok (_, s') => (.error .Connection, s')

end Ostrich.Acme
