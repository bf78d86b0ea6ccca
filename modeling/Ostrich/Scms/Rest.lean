import Ostrich.Lib.Interleave
import Ostrich.Lib.Table
import Ostrich.Lib.Time
import Ostrich.Lib.Uuid

/-!
# Smart-card tokens (`ostrich-scms/src/rest.rs`, `ostrich-db/src/repository/scms.rs`)

The handlers that change the status of a token or its PIN counter.  Each reads the token
(`findToken`), decides on what it read, and writes the columns that it changes (`updateToken`), so
requests interleave between the two.

A statement can fail before or after it takes effect; the caller does not learn which.
-/

namespace Ostrich.Scms

open Interleave Table

/-! ### The database -/

/-- A row of `tokens`. -/
structure Token where
  id : Uuid
  serialNumber : String
  status : String
  assignedTo : Option String
  pinAttemptsRemaining : ℤ
  pukAttemptsRemaining : ℤ
  soPinAttemptsRemaining : ℤ
  initializedAt : Option DateTime
  expiresAt : Option DateTime
  updatedAt : DateTime
  deriving DecidableEq

/-- The table `tokens`, with its primary key. -/
abbrev Tokens : Type := Keyed Token.id

/-- What a statement that changes a row replies; an error may come after the change. -/
inductive UpdateReply where
  | ok (token : Token)
  | error (e : String) (applied : Bool)
  deriving DecidableEq

/-- The change is in the table. -/
def UpdateReply.applied : UpdateReply → Bool
  | .ok _ => true
  | .error _ applied => applied

/-- The columns that `update_token` sets. -/
structure TokenUpdate where
  status : Option String := none
  assignedTo : Option String := none
  pinAttempts : Option ℤ := none
  pukAttempts : Option ℤ := none
  deriving DecidableEq

/-- Set the columns. -/
def TokenUpdate.apply (update : TokenUpdate) (now : DateTime) (token : Token) : Token :=
  { token with
    status := update.status.getD token.status
    assignedTo := update.assignedTo.or token.assignedTo
    pinAttemptsRemaining := update.pinAttempts.getD token.pinAttemptsRemaining
    pukAttemptsRemaining := update.pukAttempts.getD token.pukAttemptsRemaining
    updatedAt := now }

/-! ### Calls -/

inductive EventOutcome where
  | Success
  | Failure
  deriving DecidableEq, Repr

inductive Call where
  | now
  | findToken (id : Uuid)
  | updateToken (id : Uuid) (update : TokenUpdate)
  | updateTokenLifecycle (id : Uuid) (initializedAt expiresAt : Option (Option DateTime))
  | updateTokenSoPinAttempts (id : Uuid) (soPinAttempts : ℤ)
  /-- `audit_token_event`: actor, token and action; an error of the sink is only logged. -/
  | audit (actor : String) (id : Uuid) (action : String) (outcome : EventOutcome)
  deriving DecidableEq

abbrev Reply : Call → Type
  | .now => DateTime
  | .findToken _ => Except String (Option Token)
  | .updateToken .. | .updateTokenLifecycle .. | .updateTokenSoPinAttempts .. => UpdateReply
  | .audit .. => Unit

/-- How a statement fails. -/
inductive Fault where
  | none
  | before
  | after
  deriving DecidableEq, Repr

/-- What a call does not control. -/
structure Choice where
  fault : Fault := .none
  now : DateTime := .ofMicros 0

/-- `UPDATE tokens SET … WHERE id = …`, with `fetch_one`. -/
def updateRow (id : Uuid) (f : Token → Token) (hf : ∀ token, (f token).id = token.id) (c : Choice)
    (s : Tokens) : UpdateReply × Tokens :=
  match s.get id with
  | none => (.error "no rows returned" false, s)
  | some token =>
    match c.fault with
    | .before => (.error "connection closed" false, s)
    | .after => (.error "connection closed" true, s.modify (·.id = id) f hf)
    | .none => (.ok (f token), s.modify (·.id = id) f hf)

/-- A call, in the database. -/
def exec : (e : Call) → Choice → Tokens → Reply e × Tokens
  | .now, c, s => (c.now, s)
  | .findToken id, c, s =>
    match c.fault with
    | .none => (.ok (s.get id), s)
    | _ => (.error "connection closed", s)
  | .updateToken id update, c, s => updateRow id (update.apply c.now) (fun _ => rfl) c s
  | .updateTokenLifecycle id initializedAt expiresAt, c, s =>
    updateRow id (fun token => { token with
      initializedAt := initializedAt.getD token.initializedAt
      expiresAt := expiresAt.getD token.expiresAt
      updatedAt := c.now }) (fun _ => rfl) c s
  | .updateTokenSoPinAttempts id soPinAttempts, c, s =>
    updateRow id (fun token => { token with
      soPinAttemptsRemaining := soPinAttempts, updatedAt := c.now }) (fun _ => rfl) c s
  | .audit .., _, s => ((), s)

/-! ### Handlers -/

inductive Permission where
  | ModifyUser
  | DeleteUser
  | UnlockAccount
  | ViewUsers
  deriving DecidableEq, Repr

inductive Error where
  | DatabaseError (message : String)
  | TokenNotFound (id : String)
  | InvalidRequest (message : String)
  | PinBlocked
  | InvalidPin
  | Unauthorized (message : String)
  deriving DecidableEq, Repr

/-- The state of the service: who its users are and what its policy permits them. -/
structure Env where
  User : Type
  username : User → String
  /-- `RbacPolicy::authorize`: user, permission and resource. -/
  authorize : User → Permission → String → Except String Unit

abbrev ScmsM := Prog Call Reply Error

def await (e : Call) : ScmsM (Reply e) := Prog.perform e

/-- What a handler answers; a handler that returns the token sets some of its fields itself. -/
inductive Response where
  | token (row : Token) (status : String) (assignedTo : Option String)
  | ok
  deriving DecidableEq

section

variable (env : Env)

def checkPermission (user : env.User) (permission : Permission) : ScmsM Unit :=
  match env.authorize user permission "scms:token" with
  | .ok () => .ret ()
  | .error e => .fail (.Unauthorized e)

/-- `find_token`, with its errors. -/
def findToken (id : Uuid) : ScmsM Token := do
  let reply : Except String (Option Token) ← await (.findToken id)
  match reply with
  | .error e => .fail (.DatabaseError ("Failed to find token: " ++ e))
  | .ok none => .fail (.TokenNotFound id.toString)
  | .ok (some token) => return token

/-- The result of a statement, with its error. -/
def updated (what : String) : UpdateReply → ScmsM Token
  | .ok token => .ret token
  | .error e _ => .fail (.DatabaseError ("Failed to " ++ what ++ ": " ++ e))

def updateToken (what : String) (id : Uuid) (update : TokenUpdate) : ScmsM Token := do
  let reply : UpdateReply ← await (.updateToken id update)
  updated what reply

def auditTokenEvent (user : env.User) (id : Uuid) (action : String) (outcome : EventOutcome) :
    ScmsM Unit := await (.audit (env.username user) id action outcome)

/-- The check of the status that a handler requires. -/
def requireStatus (token : Token) (status what : String) : ScmsM Unit :=
  if token.status ≠ status then
    .fail (.InvalidRequest ("Token must be in " ++ what ++ ", current state: " ++ token.status))
  else .ret ()

def revokeToken (user : env.User) (id : Uuid) : ScmsM Response := do
  checkPermission env user .DeleteUser
  let dbToken ← findToken id
  let _ ← updateToken "revoke token" id { status := some "revoked" }
  auditTokenEvent env user id "revoke_token" .Success
  return .token dbToken "revoked" dbToken.assignedTo

def initializeToken (user : env.User) (id : Uuid) : ScmsM Response := do
  checkPermission env user .ModifyUser
  let dbToken ← findToken id
  requireStatus dbToken "uninitialized" "uninitialized state"
  let _ ← updateToken "initialize token" id { status := some "initialized" }
  let now : DateTime ← await .now
  let reply : UpdateReply ← await (.updateTokenLifecycle id (some (some now)) none)
  let row ← updated "record initialization time" reply
  auditTokenEvent env user id "initialize_token" .Success
  return .token row "initialized" row.assignedTo

def personalizeToken (user : env.User) (id : Uuid) (assignedTo : String) : ScmsM Response := do
  checkPermission env user .ModifyUser
  let dbToken ← findToken id
  requireStatus dbToken "initialized" "initialized state"
  let _ ← updateToken "personalize token" id
    { status := some "active", assignedTo := some assignedTo }
  auditTokenEvent env user id "personalize_token" .Success
  return .token dbToken "active" (some assignedTo)

def suspendToken (user : env.User) (id : Uuid) : ScmsM Response := do
  checkPermission env user .ModifyUser
  let dbToken ← findToken id
  requireStatus dbToken "active" "active state to suspend"
  let _ ← updateToken "suspend token" id { status := some "suspended" }
  auditTokenEvent env user id "suspend_token" .Success
  return .token dbToken "suspended" dbToken.assignedTo

def resumeToken (user : env.User) (id : Uuid) : ScmsM Response := do
  checkPermission env user .ModifyUser
  let dbToken ← findToken id
  requireStatus dbToken "suspended" "suspended state to resume"
  let _ ← updateToken "resume token" id { status := some "active" }
  auditTokenEvent env user id "resume_token" .Success
  return .token dbToken "active" dbToken.assignedTo

def unblockToken (user : env.User) (id : Uuid) : ScmsM Response := do
  checkPermission env user .UnlockAccount
  let dbToken ← findToken id
  if dbToken.pinAttemptsRemaining > 0 then
    .fail (.InvalidRequest "Token is not locked, unblock not required")
  else
    let _ ← updateToken "unblock token" id { status := some "active", pinAttempts := some 3 }
    let reply : UpdateReply ← await (.updateTokenSoPinAttempts id 3)
    let _ ← updated "reset SO-PIN attempts" reply
    auditTokenEvent env user id "unblock_token" .Success
    return .token dbToken dbToken.status dbToken.assignedTo

/-- The comparison of the PIN, which is not implemented and fails. -/
def verified : Bool := false

def verifyPin (user : env.User) (id : Uuid) (pin : String) : ScmsM Response := do
  checkPermission env user .ViewUsers
  if pin = "" then .fail (.InvalidRequest "PIN cannot be empty")
  else
    let dbToken ← findToken id
    if dbToken.pinAttemptsRemaining ≤ 0 ∨ dbToken.status = "blocked" then
      auditTokenEvent env user id "verify_pin" .Failure
      .fail .PinBlocked
    else if !verified then
      let newAttempts := dbToken.pinAttemptsRemaining - 1
      let newStatus := if newAttempts ≤ 0 then some "blocked" else none
      let _ ← updateToken "update PIN attempts" id
        { status := newStatus, pinAttempts := some newAttempts }
      auditTokenEvent env user id "verify_pin" .Failure
      if newAttempts ≤ 0 then .fail .PinBlocked
      else .fail .InvalidPin
    else
      let _ ← updateToken "reset PIN attempts" id { pinAttempts := some 3 }
      auditTokenEvent env user id "verify_pin" .Success
      return .ok

def changePin (user : env.User) (id : Uuid) (currentPin newPin : String) : ScmsM Response := do
  checkPermission env user .ModifyUser
  if currentPin = "" ∨ newPin = "" then .fail (.InvalidRequest "PINs cannot be empty")
  else
    let dbToken ← findToken id
    if dbToken.pinAttemptsRemaining ≤ 0 then .fail .PinBlocked
    else
      let _ ← updateToken "reset PIN attempts" id { pinAttempts := some 3 }
      auditTokenEvent env user id "change_pin" .Success
      return .ok

/-! ### The service -/

inductive Action where
  | revokeToken
  | initializeToken
  | personalizeToken (assignedTo : String)
  | suspendToken
  | resumeToken
  | unblockToken
  | verifyPin (pin : String)
  | changePin (currentPin newPin : String)
  deriving DecidableEq

/-- A request of a user about a token. -/
structure Task where
  user : env.User
  id : Uuid
  action : Action

def Task.body (t : Task env) : ScmsM Response :=
  match t.action with
  | .revokeToken => Scms.revokeToken env t.user t.id
  | .initializeToken => Scms.initializeToken env t.user t.id
  | .personalizeToken assignedTo => Scms.personalizeToken env t.user t.id assignedTo
  | .suspendToken => Scms.suspendToken env t.user t.id
  | .resumeToken => Scms.resumeToken env t.user t.id
  | .unblockToken => Scms.unblockToken env t.user t.id
  | .verifyPin pin => Scms.verifyPin env t.user t.id pin
  | .changePin currentPin newPin => Scms.changePin env t.user t.id currentPin newPin

/-- Any number of requests over one table. -/
def scms : System Call Reply Error Response (Task env) Tokens Choice where
  body := Task.body env
  exec := exec
  spawned _ := none

abbrev ScmsWorld := World Call Reply Error Response (Task env) Tokens

abbrev ScmsEvent := Event Call Reply Error Response (Task env)

abbrev ScmsConfig := Config Call Reply Error Response (Task env) Tokens

end

end Ostrich.Scms
