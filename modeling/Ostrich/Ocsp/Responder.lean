import Ostrich.Ca.Repository
import Ostrich.Crypto.Algorithm
import Ostrich.Lib.Interleave
import Ostrich.Ocsp.Response

/-!
# The OCSP responder (`ostrich-ocsp/src/responder.rs`, `ostrich-ocsp/src/cache.rs`)

`processRequest` answers from the cache, or else from the row of the certificate.  The steps that
other tasks can come between are `Call`s: an operation of the cache (which holds its lock), a
database statement, a look at the clock, a signature, an audit record.

The tasks of `system` are the requests, the invalidations, and the statements of the certificate
authority on the same database; any number of them run at once.
-/

namespace Ostrich.Ocsp

open Crypto Interleave

/-! ### The cache -/

/-- Cache key for OCSP responses. -/
structure CacheKey where
  /-- Hex-encoded. -/
  serialNumber : String
  /-- Dotted OID. -/
  hashAlgorithm : String
  deriving DecidableEq, Repr

/-- Create a new cache key. -/
def CacheKey.new (serialNumber : List UInt8) (hashAlgorithm : String) : CacheKey :=
  ⟨X509.hexEncode serialNumber, hashAlgorithm⟩

/-- Cached OCSP response entry. -/
structure CacheEntry where
  response : OcspResponse
  expiresAt : DateTime
  insertedAt : DateTime
  deriving DecidableEq, Repr

abbrev Cache := List (CacheKey × CacheEntry)

namespace Cache

/-- Get a cached response that has not expired. -/
def get (cache : Cache) (now : DateTime) (key : CacheKey) : Option OcspResponse :=
  match cache.find? (·.1 = key) with
  | some (_, entry) => if now < entry.expiresAt then some entry.response else none
  | none => none

/-- Evict an entry with the least insertion time, whichever the map yields first (`pick`). -/
def evict (cache : Cache) (pick : ℕ) : Cache :=
  let oldest := cache.filter fun e => cache.all fun other => e.2.insertedAt ≤ other.2.insertedAt
  match oldest[pick % oldest.length]? with
  | some (key, _) => cache.filter (·.1 ≠ key)
  | none => cache

/-- Insert a response that has a `nextUpdate`, with eviction if the cache is full.  The clock is
read for each entry (`swept`) and again for the new one. -/
def insert (maxEntries : ℕ) (cache : Cache) (swept : CacheKey → DateTime) (now : DateTime)
    (pick : ℕ) (key : CacheKey) (response : OcspResponse) : Cache :=
  match response.responses.head?.bind (·.nextUpdate) with
  | none => cache
  | some expiresAt =>
    let valid := cache.filter fun e => swept e.1 < e.2.expiresAt
    let room := if maxEntries ≤ valid.length then evict valid pick else valid
    (key, { response, expiresAt, insertedAt := now }) :: room.filter (·.1 ≠ key)

/-- Invalidate the entries of a certificate. -/
def invalidate (cache : Cache) (serialNumber : List UInt8) : Cache :=
  cache.filter fun e => e.1.serialNumber ≠ X509.hexEncode serialNumber

def clear (_ : Cache) : Cache := []

end Cache

/-! ### Calls -/

inductive Call where
  | cacheGet (key : CacheKey)
  | cacheInsert (key : CacheKey) (response : OcspResponse)
  | cacheInvalidate (serialNumber : List UInt8)
  | findBySerial (serialNumber : List UInt8)
  /-- `Utc::now`. -/
  | now
  | sign (tbs : List UInt8)
  | audit (action : String)
  /-- A statement of the certificate authority. -/
  | ca (q : Ca.Query)

abbrev Reply : Call → Type
  | .cacheGet _ => Option OcspResponse
  | .cacheInsert .. | .cacheInvalidate _ | .audit _ => Unit
  | .findBySerial _ => Except Ca.DbError (Option Ca.Certificate)
  | .now => DateTime
  | .sign _ => Except String (List UInt8)
  | .ca q => Ca.DbReply q.Result

abbrev OcspM := Prog Call Reply Error

/-- Make a call. -/
def await (e : Call) : OcspM (Reply e) := Prog.perform e

/-! ### The responder -/

/-- The configuration of the responder, and what it takes from other crates. -/
structure Env where
  /-- In seconds. -/
  responseValidity : ℤ
  includeNonce : Bool
  maxEntries : ℕ
  /-- The dotted form of the content octets of an OID. -/
  oidText : List UInt8 → Option String
  /-- `signing_algorithm_for_key` of the configured key. -/
  signingAlgorithm : Except String Algorithm
  caCertificateDer : Option (List UInt8)
  /-- The DER of the subject of a certificate. -/
  subjectName : List UInt8 → Except String (List UInt8)
  encodeSignature : Algorithm → List UInt8 → Except String (List UInt8)
  algorithmIdentifierDer : Algorithm → Except String (List UInt8)

variable (env : Env)

/-- The result of a function of another crate. -/
def ofExcept {α : Type} (text : String) : Except String α → OcspM α
  | .ok a => return a
  | .error e => .fail (.SigningError (text ++ e))

/-- Sign an OCSP response. -/
def signResponse (responses : List SingleResponse) (nonce : Option (List UInt8)) :
    OcspM OcspResponse := do
  let algorithm ← ofExcept "" env.signingAlgorithm
  match env.caCertificateDer with
  | none => .fail (.SigningError "OCSP responder CA certificate not configured")
  | some caCertDer =>
    let responderNameDer ← ofExcept "Failed to parse CA certificate: " (env.subjectName caCertDer)
    let nonce := if env.includeNonce then nonce else none
    let producedAt ← await .now
    let tbsDer ← Prog.ofExcept
      (encodeTbsResponseData responderNameDer producedAt responses nonce)
    let signed ← await (.sign tbsDer)
    let signature ← ofExcept "Failed to sign OCSP response: " signed
    let signature ← ofExcept "Failed to encode OCSP signature: "
      (env.encodeSignature algorithm signature)
    let signatureAlgorithm ← ofExcept "Failed to encode OCSP signatureAlgorithm: "
      (env.algorithmIdentifierDer algorithm)
    let now ← await .now
    return { responseStatus := .Successful, responses, tbsResponseData := tbsDer, signature,
             signatureAlgorithm, signingCert := caCertDer, producedAt := now, nonce }

/-- The CertID fields echo the request. -/
def singleResponse (request : OcspRequest) (certStatus : CertStatus) (thisUpdate : DateTime)
    (nextUpdate : Option DateTime) : SingleResponse where
  serialNumber := request.serialNumber
  issuerNameHash := request.issuerNameHash
  issuerKeyHash := request.issuerKeyHash
  hashAlgorithm := request.hashAlgorithm.oid
  certStatus := certStatus
  thisUpdate := thisUpdate
  nextUpdate := nextUpdate

/-- Create an "unknown" status response. -/
def createUnknownResponse (request : OcspRequest) : OcspM OcspResponse := do
  let thisUpdate ← await .now
  signResponse env [singleResponse request .Unknown thisUpdate none] request.nonce

/-- The status of a certificate. -/
def certStatusOf (cert : Ca.Certificate) : OcspM CertStatus :=
  if cert.revoked then
    let reason := cert.revocationReason.map fun r => UInt8.ofNat (r % 256).toNat
    match cert.revocationTime with
    | some time => return .Revoked time reason
    | none => do
      let time ← await .now
      return .Revoked time reason
  else return .Good

/-- The key of a request in the cache. -/
def OcspRequest.cacheKey (request : OcspRequest) : CacheKey :=
  .new request.serialNumber request.hashAlgorithm.oid

/-- A response with a nonce answers one request only. -/
def OcspRequest.cacheable (request : OcspRequest) : Bool :=
  request.nonce.isNone || !env.includeNonce

/-- Look into the cache. -/
def lookup (request : OcspRequest) : OcspM (Option OcspResponse) :=
  if request.cacheable env then await (.cacheGet request.cacheKey) else return none

/-- Cache the response for future queries. -/
def remember (request : OcspRequest) (response : OcspResponse) : OcspM Unit :=
  if request.cacheable env then await (.cacheInsert request.cacheKey response) else return ()

/-- The response for a certificate that was found. -/
def respond (request : OcspRequest) (cert : Ca.Certificate) : OcspM OcspResponse := do
  let certStatus ← certStatusOf cert
  let thisUpdate ← await .now
  let now ← await .now
  match now.addDuration env.responseValidity with
  | none => .fail .Panic
  | some nextUpdate =>
    let response ← signResponse env
      [singleResponse request certStatus thisUpdate (some nextUpdate)] request.nonce
    remember env request response
    await (.audit "generate_response")
    return response

/-- Process an OCSP request. -/
def processRequest (request : OcspRequest) : OcspM OcspResponse := do
  match ← lookup env request with
  | some response =>
    await (.audit "cache_hit")
    return response
  | none =>
    await (.audit "check_status")
    match ← await (.findBySerial request.serialNumber) with
    | .error e => .fail (.Database e)
    | .ok none => createUnknownResponse env request
    | .ok (some cert) => respond env request cert

/-! ### The system -/

inductive Task where
  /-- A request in DER. -/
  | processRequest (der : List UInt8)
  | invalidateCache (serialNumber : List UInt8)
  /-- A statement of the certificate authority. -/
  | ca (q : Ca.Query)

/-- The programs of the tasks. -/
def body : Task → OcspM (Option OcspResponse)
  | .processRequest der => do
    let request ← Prog.ofExcept (fromDer env.oidText der)
    let response ← processRequest env request
    return some response
  | .invalidateCache serialNumber => do
    await (.cacheInvalidate serialNumber)
    return none
  | .ca q => do
    let _ ← await (.ca q)
    return none

/-- The database, and the cache of the responder. -/
structure Store where
  db : Ca.Store := {}
  cache : Cache := []

/-- What the tasks do not control: whether a statement fails, the time (`swept` at the entries of
the cache), which of several rows or entries is taken, and signatures. -/
structure Choice where
  fault : Ca.Fault
  now : DateTime
  swept : CacheKey → DateTime := fun _ => now
  pick : ℕ
  signature : Except String (List UInt8)

/-- One of the rows with the serial number. -/
def findBySerial (db : Ca.Store) (pick : ℕ) (serialNumber : List UInt8) : Option Ca.Certificate :=
  let rows := db.withSerial serialNumber
  rows[pick % rows.length]?

/-- Answer a call. -/
def exec (e : Call) (c : Choice) (s : Store) : Reply e × Store :=
  match e with
  | .cacheGet key => (s.cache.get c.now key, s)
  | .cacheInsert key response =>
    ((), { s with cache := s.cache.insert env.maxEntries c.swept c.now c.pick key response })
  | .cacheInvalidate serialNumber => ((), { s with cache := s.cache.invalidate serialNumber })
  | .findBySerial serialNumber =>
    match c.fault with
    | .none => (.ok (findBySerial s.db c.pick serialNumber), s)
    | _ => (.error (.Query "connection lost"), s)
  | .now => (c.now, s)
  | .sign _ => (c.signature, s)
  | .audit _ => ((), s)
  | .ca q =>
    let (reply, db) := q.exec c.fault c.now s.db
    (reply, { s with db })

/-- The responder and the certificate authority. -/
def system : System Call Reply Error (Option OcspResponse) Task Store Choice where
  body := body env
  exec := exec env
  spawned := fun _ => none

abbrev OcspEvent := Event Call Reply Error (Option OcspResponse) Task
abbrev OcspWorld := World Call Reply Error (Option OcspResponse) Task Store
abbrev OcspConfig := Config Call Reply Error (Option OcspResponse) Task Store

end Ostrich.Ocsp
