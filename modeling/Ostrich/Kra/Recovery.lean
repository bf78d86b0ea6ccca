import Ostrich.Kra.Shamir
import Ostrich.Lib.Interleave
import Ostrich.Lib.Table
import Ostrich.Lib.Time
import Ostrich.Lib.Uuid

/-!
# Escrow and recovery of keys (`ostrich-kra/src/{wrap,escrow,recovery}.rs`,
`ostrich-db/src/repository/kra.rs`)

`escrowKey` wraps a private key under a fresh key-encryption key, splits that one into shares and
stores the wrapped key; the shares go to the caller.  `initiateRecovery` opens a recovery session
for a stored key, `submitShare` stores the share of an agent for a session, and `completeRecovery`
rebuilds the key-encryption key from shares that its caller hands over and unwraps the stored key.

AES-GCM is a parameter (`Aead`).  A statement of the database can fail, before or after it takes
effect, for reasons that the model leaves open.
-/

namespace Ostrich.Kra

open Interleave Table

/-! ### Key wrapping -/

/-- AES-256-GCM: key, nonce, associated data, and text. -/
structure Aead where
  /-- Encrypt and append the tag. -/
  sealInPlaceAppendTag : List UInt8 → List UInt8 → List UInt8 → List UInt8 → Option (List UInt8)
  /-- Check the tag and decrypt. -/
  openInPlace : List UInt8 → List UInt8 → List UInt8 → List UInt8 → Option (List UInt8)

/-- `KEK_LEN`. -/
def kekLen : ℕ := 32

/-- `NONCE_LEN`. -/
def nonceLen : ℕ := 12

/-- `AES_256_GCM.tag_len()`. -/
def tagLen : ℕ := 16

/-- Bytes of a fixed number. -/
abbrev Bytes (n : ℕ) : Type := { bytes : List UInt8 // bytes.length = n }

section

variable (aead : Aead)

/-- The check of the length of a key. -/
def gcmKey (kek : List UInt8) : Except Error Unit :=
  if kek.length ≠ kekLen then
    .error (.KeyWrap s!"KEK must be {kekLen} bytes, got {kek.length}")
  else .ok ()

/-- Wrap a private key with this nonce. -/
def wrapKey (kek plaintext aad : List UInt8) (nonce : Bytes nonceLen) : Except Error (List UInt8) :=
  match gcmKey kek with
  | .error e => .error e
  | .ok () =>
    match aead.sealInPlaceAppendTag kek nonce.1 aad plaintext with
    | none => .error (.KeyWrap "Key wrapping failed")
    | some sealed => .ok (nonce.1 ++ sealed)

/-- Unwrap a private key. -/
def unwrapKey (kek wrapped aad : List UInt8) : Except Error (List UInt8) :=
  if wrapped.length < nonceLen + tagLen then .error (.KeyWrap "Wrapped key too short")
  else
    match gcmKey kek with
    | .error e => .error e
    | .ok () =>
      match aead.openInPlace kek (wrapped.take nonceLen) aad (wrapped.drop nonceLen) with
      | none => .error (.KeyWrap "Key unwrapping failed")
      | some plaintext => .ok plaintext

end

/-! ### The database -/

/-- A row of `escrowed_keys`. -/
structure EscrowedKeyRow where
  id : Uuid
  certificateId : Uuid
  wrappedKey : List UInt8
  keyType : String
  algorithm : String
  createdAt : DateTime
  deriving DecidableEq

/-- A row of `recovery_agents`. -/
structure AgentRow where
  id : Uuid
  active : Bool
  deriving DecidableEq

/-- A row of `recovery_requests`. -/
structure RecoveryRequestRow where
  id : Uuid
  escrowedKeyId : Uuid
  requestor : String
  justification : String
  status : String
  requiredShares : ℤ
  totalAgents : ℤ
  createdAt : DateTime
  deriving DecidableEq

/-- A row of `recovery_shares`. -/
structure RecoveryShareRow where
  id : Uuid
  recoveryRequestId : Uuid
  agentId : Uuid
  encryptedShare : List UInt8
  submittedAt : Option DateTime
  deriving DecidableEq

structure Store where
  escrowedKeys : Keyed EscrowedKeyRow.id
  agents : Keyed AgentRow.id
  requests : Keyed RecoveryRequestRow.id
  shares : Keyed RecoveryShareRow.id

/-! ### Calls -/

inductive EventOutcome where
  | Success
  | Failure
  deriving DecidableEq, Repr

inductive Call where
  /-- `SystemRandom::fill`. -/
  | fill (n : ℕ)
  /-- The generator of `ShamirSecretSharing::split`. -/
  | draws
  | createEscrowedKey (certificateId : Uuid) (wrappedKey : List UInt8) (keyType algorithm : String)
  | findEscrowedKey (id : Uuid)
  | createRecoveryRequest (escrowedKeyId : Uuid) (requestor justification : String)
      (requiredShares totalAgents : ℤ)
  | findRecoveryRequest (id : Uuid)
  | createRecoveryShare (recoveryRequestId agentId : Uuid) (encryptedShare : List UInt8)
  | countSubmittedShares (recoveryRequestId : Uuid)
  /-- Actor, target, action and outcome; an error of the sink is ignored. -/
  | audit (actor target action : String) (outcome : EventOutcome)

abbrev Reply : Call → Type
  | .fill n => Option (Bytes n)
  | .draws => ℕ → UInt8
  | .createEscrowedKey .. => Except String EscrowedKeyRow
  | .findEscrowedKey _ => Except String (Option EscrowedKeyRow)
  | .createRecoveryRequest .. => Except String RecoveryRequestRow
  | .findRecoveryRequest _ => Except String (Option RecoveryRequestRow)
  | .createRecoveryShare .. => Except String RecoveryShareRow
  | .countSubmittedShares _ => Except String ℤ
  | .audit .. => Unit

/-- How an operation ends if it returns no value. -/
inductive Failure where
  | error (e : Error)
  | panic
  deriving DecidableEq, Repr

abbrev KraM := Prog Call Reply Failure

def await (e : Call) : KraM (Reply e) := Prog.perform e

def raise {α : Type} (e : Error) : KraM α := .fail (.error e)

/-- `?` on a result of the repository. -/
def query {α : Type} : Except String α → KraM α
  | .ok a => .ret a
  | .error e => raise (.Database e)

/-- `?` on a result of this crate. -/
def liftExcept {α : Type} : Except Error α → KraM α
  | .ok a => .ret a
  | .error e => raise e

/-- `?` on a result of secret sharing, which may panic. -/
def liftOutcome {α : Type} : Outcome Error α → KraM α
  | .ok a => .ret a
  | .err e => raise e
  | .panic => .fail .panic
  | .hang => .fail .panic

/-! ### Escrow -/

structure KeyEscrowRequest where
  privateKey : List UInt8
  certificateId : Uuid
  subjectDn : String
  keyType : String
  numAgents : ℕ
  threshold : ℕ
  requestor : String
  justification : String
  deriving DecidableEq

structure EscrowedKey where
  id : Uuid
  certificateId : Uuid
  subjectDn : String
  keyType : String
  encryptedKey : List UInt8
  numShares : ℕ
  threshold : ℕ
  escrowedAt : DateTime
  escrowedBy : String
  justification : String

section

variable (aead : Aead)

/-- `fill`, with its error. -/
def fillBytes (n : ℕ) (what : String) : KraM (Bytes n) := do
  let reply : Option (Bytes n) ← await (.fill n)
  match reply with
  | none => raise (.KeyWrap ("Failed to generate " ++ what))
  | some bytes => return bytes

/-- The records of the distribution of shares. -/
def auditShares (requestor : String) : ℕ → List Share → KraM Unit
  | _, [] => return ()
  | idx, _ :: rest => do
    await (.audit requestor s!"agent-{idx + 1}" "distribute_share" .Success)
    auditShares requestor (idx + 1) rest

/-- Escrow a private key: the record and the shares of the key-encryption key. -/
def escrowKey (request : KeyEscrowRequest) : KraM (EscrowedKey × List Share) :=
  if request.numAgents < request.threshold then
    raise (.InvalidRequest
      s!"Threshold {request.threshold} cannot exceed number of agents {request.numAgents}")
  else if request.threshold = 0 then
    raise (.InvalidRequest "Threshold must be at least 1")
  else do
    let kek ← fillBytes kekLen "KEK"
    let nonce ← fillBytes nonceLen "nonce"
    let encryptedKey ← liftExcept
      (wrapKey aead kek.1 request.privateKey request.certificateId.asBytes nonce)
    let draws : ℕ → UInt8 ← await .draws
    let shares ← liftOutcome (split draws kek.1 request.threshold request.numAgents)
    let row ← query (← await (.createEscrowedKey request.certificateId encryptedKey request.keyType
      request.keyType))
    await (.audit request.requestor request.subjectDn "escrow_key" .Success)
    auditShares request.requestor 0 shares
    let escrowedKey : EscrowedKey :=
      { id := row.id, certificateId := request.certificateId, subjectDn := request.subjectDn
        keyType := request.keyType, encryptedKey, numShares := request.numAgents
        threshold := request.threshold, escrowedAt := row.createdAt
        escrowedBy := request.requestor, justification := request.justification }
    return (escrowedKey, shares)

/-! ### Recovery -/

structure RecoveryRequest where
  escrowId : Uuid
  requestor : String
  justification : String
  approvedBy : Option String

inductive RecoveryStatus where
  | Pending
  | CollectingShares
  | Completed
  | Denied
  | Cancelled
  deriving DecidableEq, Repr

structure RecoverySession where
  id : Uuid
  escrowId : Uuid
  status : RecoveryStatus
  threshold : ℕ
  sharesCollected : ℤ
  requestor : String
  justification : String
  approvedBy : Option String
  createdAt : DateTime
  completedAt : Option DateTime

/-- Open a recovery session; the threshold is that of 3-of-5. -/
def initiateRecovery (request : RecoveryRequest) : KraM RecoverySession := do
  await (.audit request.requestor request.escrowId.toString "initiate_recovery" .Success)
  match ← query (← await (.findEscrowedKey request.escrowId)) with
  | none => raise (.KeyNotFound ("Escrow ID: " ++ request.escrowId.toString))
  | some _ =>
    let threshold := 3
    let totalAgents := 5
    let row ← query (← await (.createRecoveryRequest request.escrowId request.requestor
      request.justification threshold totalAgents))
    return { id := row.id, escrowId := request.escrowId, status := .Pending
             threshold := threshold.toNat, sharesCollected := 0, requestor := request.requestor
             justification := request.justification, approvedBy := request.approvedBy
             createdAt := row.createdAt, completedAt := none }

/-- The recovery request of a session, with its errors. -/
def findSession (sessionId : Uuid) : KraM RecoveryRequestRow := do
  match ← query (← await (.findRecoveryRequest sessionId)) with
  | none => raise (.RecoveryError ("Recovery session not found: " ++ sessionId.toString))
  | some row => return row

/-- Store the share of an agent. -/
def submitShare (sessionId agentId : Uuid) (share : Share) : KraM RecoverySession := do
  await (.audit agentId.toString sessionId.toString "submit_share" .Success)
  let request ← findSession sessionId
  let _ ← query (← await (.createRecoveryShare sessionId agentId share.value))
  let sharesCollected ← query (← await (.countSubmittedShares sessionId))
  return { id := sessionId, escrowId := request.escrowedKeyId, status := .CollectingShares
           threshold := request.requiredShares.toNat, sharesCollected
           requestor := request.requestor, justification := request.justification
           approvedBy := none, createdAt := request.createdAt, completedAt := none }

/-- Rebuild the key-encryption key from these shares and unwrap the private key. -/
def completeRecovery (sessionId : Uuid) (shares : List Share) (threshold : ℕ) :
    KraM (List UInt8) :=
  if shares.length < threshold then
    raise (.InsufficientShares threshold shares.length)
  else do
    let request ← findSession sessionId
    match ← query (← await (.findEscrowedKey request.escrowedKeyId)) with
    | none => raise (.KeyNotFound ("Escrow ID: " ++ request.escrowedKeyId.toString))
    | some key =>
      let kek ← liftOutcome (reconstruct shares threshold)
      match unwrapKey aead kek key.wrappedKey key.certificateId.asBytes with
      | .error e =>
        await (.audit "system" sessionId.toString "complete_recovery" .Failure)
        raise e
      | .ok privateKey =>
        await (.audit "system" sessionId.toString "complete_recovery" .Success)
        return privateKey

/-! ### The system -/

inductive Task where
  | escrowKey (request : KeyEscrowRequest)
  | initiateRecovery (request : RecoveryRequest)
  | submitShare (sessionId agentId : Uuid) (share : Share)
  | completeRecovery (sessionId : Uuid) (shares : List Share) (threshold : ℕ)

inductive Result where
  | escrowed (key : EscrowedKey) (shares : List Share)
  | session (session : RecoverySession)
  | recovered (privateKey : List UInt8)

/-- The programs of the tasks. -/
def body : Task → KraM Result
  | .escrowKey request => (fun r => .escrowed r.1 r.2) <$> escrowKey aead request
  | .initiateRecovery request => .session <$> initiateRecovery request
  | .submitShare sessionId agentId share => .session <$> submitShare sessionId agentId share
  | .completeRecovery sessionId shares threshold =>
    .recovered <$> completeRecovery aead sessionId shares threshold

end

theorem length_zeros (n : ℕ) : (List.replicate n (0 : UInt8)).length = n := List.length_replicate

/-- Bytes of a generator that gives zeros. -/
def zeros (n : ℕ) : Option (Bytes n) := some ⟨List.replicate n 0, length_zeros n⟩

/-- What the tasks do not control: random bytes, new ids, the clock, and whether a statement fails,
and then whether it still did what it was asked to. -/
structure Choice where
  fill : (n : ℕ) → Option (Bytes n) := zeros
  draws : ℕ → UInt8 := fun _ => 0
  id : Uuid := .nil
  now : DateTime := .ofMicros 0
  fault : Option (String × Bool) := none

/-- The result of a statement, or its failure. -/
def Choice.reply {α : Type} (c : Choice) (s : Store) (r : Except String α × Store) :
    Except String α × Store :=
  match c.fault with
  | none => r
  | some (e, applied) => (.error e, if applied then r.2 else s)

/-- `INSERT INTO escrowed_keys`. -/
def insertEscrowedKey (row : EscrowedKeyRow) (s : Store) : Except String EscrowedKeyRow × Store :=
  match s.escrowedKeys.insert? row with
  | none => (.error "duplicate key", s)
  | some escrowedKeys => (.ok row, { s with escrowedKeys })

/-- `INSERT INTO recovery_requests`: the escrowed key exists. -/
def insertRequest (row : RecoveryRequestRow) (s : Store) :
    Except String RecoveryRequestRow × Store :=
  if s.escrowedKeys.get row.escrowedKeyId = none then (.error "foreign key violation", s)
  else match s.requests.insert? row with
    | none => (.error "duplicate key", s)
    | some requests => (.ok row, { s with requests })

/-- `INSERT INTO recovery_shares`: the request and the agent exist, and the agent has no share in
this request yet. -/
def insertShare (row : RecoveryShareRow) (s : Store) : Except String RecoveryShareRow × Store :=
  if s.requests.get row.recoveryRequestId = none ∨ s.agents.get row.agentId = none then
    (.error "foreign key violation", s)
  else if s.shares.rows.any fun row' =>
      row'.recoveryRequestId = row.recoveryRequestId && row'.agentId = row.agentId then
    (.error "unique_agent_per_request", s)
  else match s.shares.insert? row with
    | none => (.error "duplicate key", s)
    | some shares => (.ok row, { s with shares })

/-- Answer a call. -/
def exec (e : Call) (c : Choice) (s : Store) : Reply e × Store :=
  match e with
  | .fill n => (c.fill n, s)
  | .draws => (c.draws, s)
  | .createEscrowedKey certificateId wrappedKey keyType algorithm =>
    c.reply s (insertEscrowedKey
      { id := c.id, certificateId, wrappedKey, keyType, algorithm, createdAt := c.now } s)
  | .findEscrowedKey id => c.reply s (.ok (s.escrowedKeys.get id), s)
  | .createRecoveryRequest escrowedKeyId requestor justification requiredShares totalAgents =>
    c.reply s (insertRequest
      { id := c.id, escrowedKeyId, requestor, justification, status := "pending", requiredShares
        totalAgents, createdAt := c.now } s)
  | .findRecoveryRequest id => c.reply s (.ok (s.requests.get id), s)
  | .createRecoveryShare recoveryRequestId agentId encryptedShare =>
    c.reply s (insertShare
      { id := c.id, recoveryRequestId, agentId, encryptedShare, submittedAt := none } s)
  | .countSubmittedShares recoveryRequestId =>
    c.reply s (.ok (s.shares.rows.countP fun row =>
      row.recoveryRequestId = recoveryRequestId && row.submittedAt.isSome), s)
  | .audit .. => ((), s)

/-- Any number of operations over one database. -/
def system (aead : Aead) : System Call Reply Failure Result Task Store Choice where
  body := body aead
  exec := exec
  spawned _ := none

abbrev KraEvent := Event Call Reply Failure Result Task
abbrev KraWorld := World Call Reply Failure Result Task Store
abbrev KraState := Config Call Reply Failure Result Task Store

end Ostrich.Kra
