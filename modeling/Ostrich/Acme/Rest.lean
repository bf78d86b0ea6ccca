import Ostrich.Acme.CaIntegration
import Ostrich.Acme.Finalize
import Ostrich.Acme.Jws
import Ostrich.Acme.Repository
import Ostrich.Acme.Service
import Ostrich.Lib.Interleave

/-!
# The ACME handlers (`ostrich-acme/src/rest.rs`, `ca_integration.rs`)

A handler is a `Prog`: between two awaited calls nothing else of it is visible to the other
handlers.  The calls (`Call`) are the statements of the repository, the clock, fresh UUIDs, the
network (challenge validation, the CA service), the audit sink and `tokio::spawn`.  `acme env` is
the `System` of all handlers and validation tasks over the five tables.

`Env` holds the configuration and what comes from other crates (JSON, cryptography, ASN.1, DNS
names, dates).  `Choice` is what a call finds outside the service.  The circuit breaker of the CA
client is such a choice: any call may find it open.
-/

namespace Ostrich.Acme

open Interleave Text X509

/-! ### Requests -/

/-- New account request (RFC 8555 §7.3). -/
structure NewAccountRequest where
  contact : List String := []
  termsOfServiceAgreed : Bool := false
  onlyReturnExisting : Option Bool := none
  deriving DecidableEq, Repr

/-- New order request. -/
structure NewOrderRequest where
  identifiers : List Identifier
  notBefore : Option String := none
  notAfter : Option String := none
  deriving DecidableEq, Repr

/-- Update account request. -/
structure UpdateAccountRequest where
  contact : Option (List String) := none
  status : Option String := none
  deriving DecidableEq, Repr

/-- Finalize order request. -/
structure FinalizeRequest where
  csr : String
  deriving DecidableEq, Repr

/-- `serde_json::from_slice`. -/
abbrev FromJson (α : Type) := List UInt8 → Except String α

/-- The configuration and the code of other crates. -/
structure Env where
  baseUrl : String
  /-- The CA client's `max_retries`, if CA integration is configured. -/
  caClient : Option ℕ
  crypto : CryptoLib
  asn1 : Asn1Lib
  /-- The DNS library's `Name::from_ascii`. -/
  nameFromAscii : String → Option Bool
  jwsEnvelope : FromJson JwsEnvelope
  protectedHeader : FromJson ProtectedHeader
  newAccountRequest : FromJson NewAccountRequest
  newOrderRequest : FromJson NewOrderRequest
  updateAccountRequest : FromJson UpdateAccountRequest
  challengeResponse : FromJson Unit
  finalizeRequest : FromJson FinalizeRequest
  /-- `str::parse::<DateTime<Utc>>`. -/
  parseDateTime : String → Option DateTime
  /-- `Uuid::parse_str`. -/
  parseUuid : String → Option Uuid

/-! ### Calls -/

/-- A gRPC status. -/
inductive Code where
  | Unavailable | DeadlineExceeded | ResourceExhausted | Aborted | Other
  deriving DecidableEq, Repr

structure Status where
  code : Code
  /-- Its `Display` text. -/
  text : String
  deriving DecidableEq, Repr

/-- What a handler awaits. -/
inductive Call where
  | db (q : Query)
  | newUuid
  | now
  | recordAudit (event : AuditEvent)
  /-- Run the validator of a challenge type: domain, token, thumbprint. -/
  | validate (challengeType domain token thumbprint : String)
  /-- `CircuitBreaker::is_request_allowed`. -/
  | isRequestAllowed
  | issueCertificate (request : IssueCertificateRequest)
  /-- `tokio::spawn(run_challenge_validation(…))`. -/
  | spawnValidation (challenge : AcmeChallenge)
  deriving DecidableEq

/-- The reply of a call; that of `issueCertificate` is the certificate id of the response. -/
abbrev Reply : Call → Type
  | .db q => Except DbError q.Result
  | .newUuid => Uuid
  | .now => DateTime
  | .recordAudit _ => Unit
  | .validate .. => Result Bool
  | .isRequestAllowed => Bool
  | .issueCertificate _ => Except Status String
  | .spawnValidation _ => Unit

/-- What a call finds outside the service. -/
structure Choice where
  fault : Fault
  drawn : Drawn
  verdict : Result Bool
  breakerClosed : Bool
  issued : Except Status String

/-- What a call does. -/
def exec : (e : Call) → Choice → Store → Reply e × Store
  | .db q, c, s => q.exec c.fault c.drawn s
  | .newUuid, c, s => (c.drawn.uuid, s)
  | .now, c, s => (c.drawn.now, s)
  | .recordAudit _, _, s => ((), s)
  | .validate .., c, s => (c.verdict, s)
  | .isRequestAllowed, c, s => (c.breakerClosed, s)
  | .issueCertificate _, c, s => (c.issued, s)
  | .spawnValidation _, _, s => ((), s)

/-- How a handler ends without a response. -/
inductive Failure where
  | error (e : Error)
  | panic
  deriving DecidableEq, Repr

/-- A handler, or a part of one. -/
abbrev Handler (α : Type) := Prog Call Reply Failure α

/-- Await one call. -/
def await (e : Call) : Handler (Reply e) := .perform e

/-- `return Err(e)`. -/
def raise {α : Type} (e : Error) : Handler α := .fail (.error e)

/-- The `?` operator. -/
def liftResult {α : Type} : Result α → Handler α
  | .ok a => .ret a
  | .error e => raise e

def liftOutcome {α : Type} : Outcome Error α → Handler α
  | .ok a => .ret a
  | .err e => raise e
  | .panic | .hang => .fail .panic

/-- A statement, with its error as `Error::Database`. -/
def query (q : Query) : Handler q.Result := do
  let reply : Except DbError q.Result ← await (.db q)
  match reply with
  | .ok a => pure a
  | .error e => raise (.Database e)

/-- A statement with its result as a value. -/
def tryQuery (q : Query) : Handler (Except DbError q.Result) := await (.db q)

def newUuid : Handler Uuid := await .newUuid

def utcNow : Handler DateTime := await .now

/-- Errors of the audit sink are only logged. -/
def recordAudit (event : AuditEvent) : Handler Unit := await (.recordAudit event)

section

variable (env : Env)

/-! ### JWS requests -/

/-- Validated JWS request with decoded payload. -/
structure ValidatedJwsRequest (α : Type) where
  payload : α
  header : ProtectedHeader
  jwk : Jwk
  jwkThumbprint : String
  accountId : Uuid

/-- A kid-authenticated JWS request validated down to (but excluding) its payload. -/
structure VerifiedJwsAccount where
  header : ProtectedHeader
  jwk : Jwk
  jwkThumbprint : String
  accountId : Uuid
  payloadB64 : String

def parseJws (body : List UInt8) : Result JwsEnvelope :=
  match env.jwsEnvelope body with
  | .ok envelope => .ok envelope
  | .error e => .error (.Malformed ("Invalid JWS envelope: " ++ e))

def decodeProtectedHeader («protected» : String) : Result ProtectedHeader :=
  match decodeBase64url env.crypto «protected» with
  | .error e => .error (.Malformed ("Invalid protected header encoding: " ++ e))
  | .ok bytes =>
    match env.protectedHeader bytes with
    | .ok header => .ok header
    | .error e => .error (.Malformed ("Invalid protected header JSON: " ++ e))

/-- Decode a payload. -/
def decodePayload {α : Type} (fromJson : FromJson α) (payload : String) : Result α :=
  match decodeBase64url env.crypto payload with
  | .error e => .error (.Common e)
  | .ok bytes =>
    match fromJson bytes with
    | .ok a => .ok a
    | .error e => .error (.Malformed ("Invalid payload JSON: " ++ e))

/-- The envelope and the header of a request for `expectedUrl`. -/
def openJws (body : List UInt8) (expectedUrl : String) :
    Result (JwsEnvelope × ProtectedHeader) := do
  let envelope ← parseJws env body
  let header ← decodeProtectedHeader env envelope.protected
  if header.url ≠ expectedUrl then
    throw (.Malformed ("JWS URL mismatch: expected '" ++ expectedUrl ++ "', got '" ++ header.url
      ++ "'"))
  return (envelope, header)

/-- Consume the nonce: a false result means that it was unknown, expired or already used. -/
def consumeNonce (nonce : String) : Handler Unit := do
  match ← tryQuery (.consumeNonce nonce) with
  | .ok true => pure ()
  | .ok false | .error _ => raise .BadNonce

/-- The signature of the envelope must verify with `jwk`. -/
def checkSignature (envelope : JwsEnvelope) (header : ProtectedHeader) (jwk : Jwk) :
    Result Unit := do
  let valid ← verifyJwsWithJwk env.crypto envelope header jwk
  if !valid then throw (.Unauthorized "Invalid JWS signature")

/-- Validate JWS request for new-account endpoint. -/
def validateJwsNewAccount {α : Type} (fromJson : FromJson α) (body : List UInt8)
    (expectedUrl : String) : Handler (ValidatedJwsRequest α) := do
  let (envelope, header) ← liftResult (openJws env body expectedUrl)
  consumeNonce header.nonce
  match header.jwk with
  | none => raise (.Malformed "JWK required for new-account")
  | some jwk =>
    liftResult (checkSignature env envelope header jwk)
    let jwkThumbprint ← liftResult (computeJwkThumbprint env.crypto jwk)
    let payload ← liftResult (decodePayload env fromJson envelope.payload)
    return ⟨payload, header, jwk, jwkThumbprint, Uuid.nil⟩

/-- The account id in a `kid`: its last path segment. -/
def accountIdOfKid (kid : String) : Result String :=
  match (splitChar '/' kid).getLast? with
  | some segment =>
    if segment = "" then .error (.Malformed ("Invalid kid: " ++ kid)) else .ok segment
  | none => .error (.Malformed ("Invalid kid: " ++ kid))

/-- Validate a kid-authenticated JWS request: envelope, URL, nonce, account lookup by kid, and
signature. -/
def verifyJwsAccount (body : List UInt8) (expectedUrl : String) : Handler VerifiedJwsAccount := do
  let (envelope, header) ← liftResult (openJws env body expectedUrl)
  consumeNonce header.nonce
  match header.kid with
  | none => raise (.Malformed "kid required for this request")
  | some kid =>
    let accountIdStr ← liftResult (accountIdOfKid kid)
    match ← query (.findAccountById accountIdStr) with
    | none => raise .AccountDoesNotExist
    | some account =>
      let jwk := account.publicKeyJwk
      liftResult (checkSignature env envelope header jwk)
      let jwkThumbprint ← liftResult (computeJwkThumbprint env.crypto jwk)
      return ⟨header, jwk, jwkThumbprint, account.id, envelope.payload⟩

def validateJwsWithAccount {α : Type} (fromJson : FromJson α) (body : List UInt8)
    (expectedUrl : String) : Handler (ValidatedJwsRequest α) := do
  let v ← verifyJwsAccount env body expectedUrl
  let payload ← liftResult (decodePayload env fromJson v.payloadB64)
  return ⟨payload, v.header, v.jwk, v.jwkThumbprint, v.accountId⟩

/-! ### Accounts -/

/-- Generate a new nonce and store it; a database error is only logged. -/
def generateNonce : Handler String := do
  let nonce ← newUuid
  let now ← utcNow
  let _ ← tryQuery (.createNonce nonce.toString (now + minutes 5))
  return nonce.toString

/-- Get new nonce: 200 for `HEAD`, 204 for `GET`. -/
def getNewNonce (head : Bool) : Handler Response := do
  let nonce ← generateNonce
  return { status := if head then 200 else 204, replayNonce := nonce, body := .empty }

def accountUrl (accountId : String) : String := env.baseUrl ++ "/acme/account/" ++ accountId

/-- The 200 response for an account that exists. -/
def existingAccountResponse (existing : AcmeAccount) : Handler Response := do
  let nonce ← generateNonce
  return { status := 200, replayNonce := nonce, location := accountUrl env existing.accountId,
           body := .account (mapDbAccountToService existing env.baseUrl) }

/-- Create new account. -/
def newAccount (body : List UInt8) : Handler Response := do
  let validated ← validateJwsNewAccount env env.newAccountRequest body
    (env.baseUrl ++ "/acme/new-account")
  let request := validated.payload
  match ← query (.findAccountByJwk validated.jwkThumbprint) with
  | some existing => existingAccountResponse env existing
  | none =>
    if request.onlyReturnExisting = some true then raise .AccountDoesNotExist
    else if !request.termsOfServiceAgreed then
      raise (.UserActionRequired "Terms of service must be agreed to")
    else
      let accountId := "acct-" ++ (← newUuid).toString
      match ← tryQuery (.createAccount accountId validated.jwkThumbprint validated.jwk
          request.contact "valid" true) with
      | .error e =>
        -- a concurrent request for the same key may have won the insert
        match ← query (.findAccountByJwk validated.jwkThumbprint) with
        | some existing => existingAccountResponse env existing
        | none => raise (.Database e)
      | .ok dbAccount =>
        let nonce ← generateNonce
        return { status := 201, replayNonce := nonce, location := accountUrl env accountId,
                 body := .account (mapDbAccountToService dbAccount env.baseUrl) }

/-- Update account. -/
def updateAccount (id : String) (body : List UInt8) : Handler Response := do
  let validated ← validateJwsWithAccount env env.updateAccountRequest body (accountUrl env id)
  let request := validated.payload
  if id ≠ validated.accountId.toString then
    raise (.Unauthorized "Cannot update another account")
  else
    let dbAccount ← query (.updateAccount id request.contact request.status)
    let nonce ← generateNonce
    return { status := 200, replayNonce := nonce,
             body := .account (mapDbAccountToService dbAccount env.baseUrl) }

/-! ### Orders -/

/-- The challenges of a new authorization. -/
def createChallenges (authorizationId : Uuid) : List String → Handler Unit
  | [] => pure ()
  | challengeType :: rest => do
    let challengeId := "chall-" ++ (← newUuid).toString
    let token := (← newUuid).toString
    let _ ← query (.createChallenge challengeId authorizationId challengeType token "pending")
    createChallenges authorizationId rest

def authzUrl (authorizationId : String) : String := env.baseUrl ++ "/acme/authz/" ++ authorizationId

/-- One authorization for each identifier; gives their URLs. -/
def createAuthorizations (orderId : Uuid) : List AuthzIdentifier → Handler (List String)
  | [] => pure []
  | identifier :: rest => do
    let authzId := "authz-" ++ (← newUuid).toString
    let authzExpires := (← utcNow) + days 7
    let dbAuthz ← query (.createAuthorization authzId orderId identifier.idType identifier.value
      "pending" authzExpires identifier.wildcard)
    createChallenges dbAuthz.id (identifier.challengeTypes env.nameFromAscii)
    let urls ← createAuthorizations orderId rest
    return authzUrl env authzId :: urls

/-- Create new order. -/
def newOrder (body : List UInt8) : Handler Response := do
  let validated ← validateJwsWithAccount env env.newOrderRequest body
    (env.baseUrl ++ "/acme/new-order")
  let request := validated.payload
  let accountId := validated.accountId
  match validateOrderIdentifiers env.nameFromAscii request.identifiers with
  | .error e =>
    recordAudit (newOrderAuditEvent accountId.toString none request.identifiers (some e))
    raise e
  | .ok authzIdentifiers =>
    let orderIdStr := "order-" ++ (← newUuid).toString
    let expires := (← utcNow) + days 7
    let dbOrder ← query (.createOrder orderIdStr accountId "pending" request.identifiers
      (request.notBefore.bind env.parseDateTime) (request.notAfter.bind env.parseDateTime) expires)
    let authorizationUrls ← createAuthorizations env dbOrder.id authzIdentifiers
    recordAudit (newOrderAuditEvent accountId.toString (some orderIdStr) request.identifiers none)
    let nonce ← generateNonce
    return { status := 201, replayNonce := nonce,
             location := env.baseUrl ++ "/acme/order/" ++ orderIdStr,
             body := .order (mapDbOrderToService dbOrder authorizationUrls env.baseUrl) }

/-- Get order status. -/
def getOrder (id : String) : Handler Response := do
  match ← query (.findOrderById id) with
  | none => raise (.Malformed ("Order not found: " ++ id))
  | some dbOrder =>
    let dbAuthzs ← query (.listAuthorizationsByOrder dbOrder.id)
    let authorizationUrls := dbAuthzs.map fun authz => authzUrl env authz.authorizationId
    let nonce ← generateNonce
    return { status := 200, replayNonce := nonce,
             body := .order (mapDbOrderToService dbOrder authorizationUrls env.baseUrl) }

def postAsGetOrder (id : String) (body : List UInt8) : Handler Response := do
  let _ ← verifyJwsAccount env body (env.baseUrl ++ "/acme/order/" ++ id)
  getOrder env id

/-- Get authorization. -/
def getAuthorization (id : String) : Handler Response := do
  match ← query (.findAuthorizationById id) with
  | none => raise (.Malformed ("Authorization not found: " ++ id))
  | some dbAuthz =>
    let dbChallenges ← query (.listChallengesByAuthorization dbAuthz.id)
    let challenges := dbChallenges.map fun c => mapDbChallengeToService c env.baseUrl
    let nonce ← generateNonce
    return { status := 200, replayNonce := nonce,
             body := .authorization (mapDbAuthorizationToService dbAuthz challenges) }

def postAsGetAuthorization (id : String) (body : List UInt8) : Handler Response := do
  let _ ← verifyJwsAccount env body (authzUrl env id)
  getAuthorization env id

/-! ### Challenges -/

/-- Respond to challenge: mark it as processing and start its validation. -/
def respondToChallenge (id : String) (body : List UInt8) : Handler Response := do
  let _ ← validateJwsWithAccount env env.challengeResponse body
    (env.baseUrl ++ "/acme/challenge/" ++ id)
  match ← query (.findChallengeById id) with
  | none => raise (.Malformed ("Challenge not found: " ++ id))
  | some dbChallenge =>
    let updatedChallenge ← query (.updateChallengeStatus id "processing" none none)
    let authz ← query (.findAuthorizationByUuid dbChallenge.authorizationId)
    let upLink := authz.map fun a => "<" ++ authzUrl env a.authorizationId ++ ">;rel=\"up\""
    await (.spawnValidation dbChallenge)
    let nonce ← generateNonce
    return { status := 200, replayNonce := nonce, link := upLink,
             body := .challenge (mapDbChallengeToService updatedChallenge env.baseUrl) }

/-- Run the validator of the challenge's type. -/
def runValidator (challengeType domain token thumbprint : String) : Handler Bool := do
  if challengeType = "http-01" ∨ challengeType = "dns-01" ∨ challengeType = "tls-alpn-01" then
    let verdict : Result Bool ← await (.validate challengeType domain token thumbprint)
    liftResult verdict
  else raise (.Malformed ("Unsupported challenge type: " ++ challengeType))

/-- The end of a successful validation: challenge and authorization become valid, and the order
ready once all its authorizations are valid. -/
def recordValidation (challenge : AcmeChallenge) (authz : AcmeAuthorization) (order : AcmeOrder) :
    Handler Unit := do
  let now ← utcNow
  let _ ← query (.updateChallengeStatus challenge.challengeId "valid" (some now) none)
  let _ ← query (.updateAuthorizationStatus authz.authorizationId "valid")
  let authzs ← query (.listAuthorizationsByOrder order.id)
  if authzs.all fun a => a.status = "valid" then
    let _ ← query (.updateOrderStatus order.id "ready")
  return ()

/-- The fallible part of challenge validation. -/
def validateChallengeInner (challenge : AcmeChallenge) : Handler Unit := do
  match ← query (.findAuthorizationByUuid challenge.authorizationId) with
  | none => raise (.ServerInternal "Authorization not found")
  | some authz =>
    liftResult (checkChallengePermitted authz challenge.challengeType)
    match ← query (.findOrderByUuid authz.orderId) with
    | none => raise (.ServerInternal "Order not found")
    | some order =>
      match ← query (.findAccountByUuid order.accountId) with
      | none => raise (.ServerInternal "Account not found")
      | some account =>
        let valid ← runValidator challenge.challengeType authz.identifierValue challenge.token
          account.jwkThumbprint
        if !valid then
          raise (.IncorrectResponse "Challenge response did not match key authorization")
        else recordValidation challenge authz order

/-- The end of a failed validation: challenge and authorization become invalid. -/
def recordInvalid (challenge : AcmeChallenge) (e : Error) : Handler Unit := do
  let _ ← tryQuery (.updateChallengeStatus challenge.challengeId "invalid" none
    (some (challengeErrorDocument e)))
  match ← tryQuery (.findAuthorizationByUuid challenge.authorizationId) with
  | .ok (some authz) =>
    let _ ← tryQuery (.updateAuthorizationStatus authz.authorizationId "invalid")
    return ()
  | _ => return ()

/-- Whether the challenge ended up valid (for the audit record). -/
def outcomeRecorded (challengeId : String) : Handler (Option Bool) := do
  match ← tryQuery (.findChallengeById challengeId) with
  | .ok (some c) => return some (c.status = "valid")
  | _ => return none

/-- What a validation task does with the outcome of the fallible part. -/
def recordOutcome (challenge : AcmeChallenge) : Except Failure Unit → Handler Unit
  | .ok () => pure ()
  | .error (.error e) => recordInvalid challenge e
  | .error .panic => .fail .panic

/-- Asynchronous challenge validation. -/
def runChallengeValidation (challenge : AcmeChallenge) : Handler Unit := do
  let outcome ← (validateChallengeInner challenge).attempt
  recordOutcome challenge outcome
  let recorded ← outcomeRecorded challenge.challengeId
  recordAudit (validateChallengeAuditEvent challenge.challengeId (recorded = some true))

/-! ### Finalization -/

/-- `is_retryable_error`. -/
def Status.isRetryable (status : Status) : Bool :=
  match status.code with
  | .Unavailable | .DeadlineExceeded | .ResourceExhausted | .Aborted => true
  | .Other => false

/-- The loop of `with_retry`: `left` more attempts after attempt number `attempt`. -/
def issueWithRetry (request : IssueCertificateRequest) : (left attempt : ℕ) → Handler String
  | left, attempt => do
    let reply : Except Status String ← await (.issueCertificate request)
    match reply with
    | .ok certificateId => pure certificateId
    | .error status =>
      let failed := .ServerInternal (s!"CA service call failed: gRPC error: gRPC call failed after "
        ++ s!"{attempt} attempts: " ++ status.text)
      if !status.isRetryable then raise failed
      else match left with
        | 0 => raise failed
        | left + 1 => issueWithRetry request left (attempt + 1)

/-- `AcmeCaClient::finalize_order`. -/
def caFinalizeOrder (maxRetries : ℕ) (orderId : Uuid) (csrDer : List UInt8) (accountId : String) :
    Handler Uuid := do
  let request ← liftOutcome (issueRequest env.asn1 orderId csrDer accountId)
  let allowed : Bool ← await .isRequestAllowed
  if !allowed then
    raise (.ServerInternal
      "CA service call failed: Service unavailable: Circuit breaker is open")
  else
    -- `attempt >= max_retries` ends the loop, also for `max_retries = 0`
    let issued ← issueWithRetry request (maxRetries - 1) 1
    match env.parseUuid issued with
    | none => raise (.ServerInternal "Invalid certificate ID from CA")
    | some certificateId =>
      let _ ← query (.updateOrderCertificate orderId certificateId csrDer)
      let _ ← query (.updateOrderStatus orderId "valid")
      return certificateId

/-- The challenge rows of the `ip` authorizations. -/
def listIpChallenges : List AcmeAuthorization → Handler (List AcmeChallenge)
  | [] => pure []
  | authz :: rest => do
    if authz.identifierType = "ip" then
      let rows ← query (.listChallengesByAuthorization authz.id)
      let more ← listIpChallenges rest
      return rows ++ more
    else listIpChallenges rest

/-- The CSR of a finalize request, parsed, with its proof of possession checked. -/
def openCsr (csr : String) : Outcome Error (List UInt8 × ParsedCsr) :=
  if csr = "" then .err (.BadCsr "CSR cannot be empty")
  else match decodeBase64url env.crypto csr with
    | .error _ => .err (.BadCsr "Invalid base64url encoding")
    | .ok csrDer => do
      let parsedCsr ← parseCsrFor env.asn1 "Failed to parse CSR" csrDer
      match verifyCsrSignature env.asn1 env.crypto.verifyWithSpki parsedCsr with
      | .ok true => .ok (csrDer, parsedCsr)
      | .ok false => .err (.BadCsr "Invalid CSR signature")
      | .err e => .err (.BadCsr ("CSR signature verification failed: " ++ e.display))
      | .panic => .panic
      | .hang => .hang

/-- The checks of a finalize request, from the rows that were read. -/
def checkFinalize (dbOrder : AcmeOrder) (dbAuthzs : List AcmeAuthorization)
    (ipChallenges : List AcmeChallenge) (now : DateTime) (parsedCsr : ParsedCsr) : Result Unit := do
  checkOrderFinalizable env.nameFromAscii dbOrder dbOrder.identifiers dbAuthzs ipChallenges now
  validateCsrIdentifiers dbOrder.identifiers parsedCsr.subjectAlternativeNames

/-- Finalize order with CSR. -/
def finalizeOrder (id : String) (body : List UInt8) : Handler Response := do
  let validated ← validateJwsWithAccount env env.finalizeRequest body
    (env.baseUrl ++ "/acme/order/" ++ id ++ "/finalize")
  let (csrDer, parsedCsr) ← liftOutcome (openCsr env validated.payload.csr)
  match ← query (.findOrderById id) with
  | none => raise (.Malformed ("Order not found: " ++ id))
  | some dbOrder =>
    if dbOrder.accountId ≠ validated.accountId then
      raise (.Unauthorized "Order belongs to different account")
    else
      let dbAuthzs ← query (.listAuthorizationsByOrder dbOrder.id)
      let ipChallenges ← listIpChallenges dbAuthzs
      let now ← utcNow
      match checkFinalize env dbOrder dbAuthzs ipChallenges now parsedCsr with
      | .error e =>
        recordAudit (finalizeRefusalAuditEvent validated.accountId.toString dbOrder.orderId e)
        raise e
      | .ok () =>
        let _ ← query (.updateOrderStatus dbOrder.id "processing")
        match env.caClient with
        | none =>
          let _ ← tryQuery (.updateOrderStatus dbOrder.id "ready")
          raise (.ServerInternal "CA integration not configured")
        | some maxRetries =>
          let _ ← caFinalizeOrder env maxRetries dbOrder.id csrDer validated.accountId.toString
          match ← query (.findOrderById id) with
          | none => raise (.ServerInternal ("Order disappeared during finalization: " ++ id))
          | some validOrder =>
            let authorizationUrls := dbAuthzs.map fun authz => authzUrl env authz.authorizationId
            let nonce ← generateNonce
            return { status := 200, replayNonce := nonce,
                     body := .order (mapDbOrderToService validOrder authorizationUrls env.baseUrl) }

/-! ### The service -/

/-- A request, or a validation task that a handler spawned. -/
inductive Task where
  | getNewNonce (head : Bool)
  | newAccount (body : List UInt8)
  | updateAccount (id : String) (body : List UInt8)
  | newOrder (body : List UInt8)
  | getOrder (id : String)
  | postAsGetOrder (id : String) (body : List UInt8)
  | getAuthorization (id : String)
  | postAsGetAuthorization (id : String) (body : List UInt8)
  | respondToChallenge (id : String) (body : List UInt8)
  | finalizeOrder (id : String) (body : List UInt8)
  | validation (challenge : AcmeChallenge)
  deriving DecidableEq

/-- What a task runs; a validation task has no response. -/
def Task.body : Task → Handler (Option Response)
  | .getNewNonce head => some <$> Acme.getNewNonce head
  | .newAccount body => some <$> Acme.newAccount env body
  | .updateAccount id body => some <$> Acme.updateAccount env id body
  | .newOrder body => some <$> Acme.newOrder env body
  | .getOrder id => some <$> Acme.getOrder env id
  | .postAsGetOrder id body => some <$> Acme.postAsGetOrder env id body
  | .getAuthorization id => some <$> Acme.getAuthorization env id
  | .postAsGetAuthorization id body => some <$> Acme.postAsGetAuthorization env id body
  | .respondToChallenge id body => some <$> Acme.respondToChallenge env id body
  | .finalizeOrder id body => some <$> Acme.finalizeOrder env id body
  | .validation challenge => (fun _ => none) <$> runChallengeValidation challenge

/-- The service: any number of requests and validation tasks over one database. -/
def acme : System Call Reply Failure (Option Response) Task Store Choice where
  body := Task.body env
  exec := exec
  spawned
    | .spawnValidation challenge => some (.validation challenge)
    | _ => none

end

/-- The tables and everything that happened. -/
abbrev AcmeWorld := World Call Reply Failure (Option Response) Task Store

/-- What can happen. -/
abbrev AcmeEvent := Event Call Reply Failure (Option Response) Task

/-- The world and the tasks in flight. -/
abbrev AcmeConfig := Config Call Reply Failure (Option Response) Task Store

/-- Clients send requests; validation tasks are only spawned. -/
def OnlyRequests (_ : AcmeWorld) (ev : AcmeEvent) : Prop :=
  ∀ i challenge, ev ≠ .start i (.validation challenge) none

end Ostrich.Acme
