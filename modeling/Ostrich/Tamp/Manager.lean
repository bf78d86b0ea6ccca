import Ostrich.Lib.Interleave
import Ostrich.Tamp.Cms
import Ostrich.Tamp.Repository

/-!
# The TAMP manager (`ostrich-tamp/src/manager.rs`)

An outbound message is validated, numbered, signed, and then its edits are written to the store, in
separate calls.  An inbound message is verified with a key that is registered for the target, and
its sequence number is checked against the last one of its signer.
-/

namespace Ostrich.Tamp

open Crypto Interleave

/-! ### Calls -/

/-- The handle of a signing key. -/
abbrev KeyHandle : Type := String

inductive EventOutcome where
  | Success
  | Failure
  deriving DecidableEq, Repr

structure AuditEvent where
  action : String
  targetLabel : String
  outcome : EventOutcome
  deriving DecidableEq, Repr

inductive Call where
  | db (q : Query)
  /-- `Uuid::new_v4`. -/
  | newUuid
  /-- `CryptoProvider::sign`. -/
  | sign (key : KeyHandle) (algorithm : Algorithm) (tbs : List UInt8)
  /-- A failure is only logged. -/
  | audit (event : AuditEvent)

abbrev Reply : Call → Type
  | .db q => DbReply q.Result
  | .newUuid => Uuid
  | .sign .. => Except String (List UInt8)
  | .audit _ => Unit

abbrev TampM := Prog Call Reply Error

/-- Make a call. -/
def await (e : Call) : TampM (Reply e) := Prog.perform e

/-- `?` on the result of a query. -/
def stored {α : Type} : DbReply α → TampM α
  | .ok a => .ret a
  | .error e => .fail (.Storage e)
  | .lost => .fail (.Storage "Database query error: connection lost")

/-- Run a query, `?` on its result. -/
def query (q : Query) : TampM q.Result := do
  stored (← await (.db q))

/-! ### Messages -/

/-- The structures of the protocol, encoded and decoded by the crate `der`. -/
structure Env where
  codec : Codec
  targetToDer : TargetIdentifier → Except String (List UInt8)
  spkiToDer : SubjectPublicKeyInfo → Except String (List UInt8)
  spkiFromDer : List UInt8 → Except String SubjectPublicKeyInfo
  anchorToDer : TrustAnchorChoice → Except String (List UInt8)
  changeToDer : TrustAnchorChangeInfoChoice → Except String (List UInt8)
  messageToDer : OutboundMessage → Except String (List UInt8)
  statusResponseFromDer : List UInt8 → Except String TampStatusResponse
  updateConfirmFromDer : List UInt8 → Except String TampUpdateConfirm
  apexUpdateConfirmFromDer : List UInt8 → Except String TampApexUpdateConfirm
  communityUpdateConfirmFromDer : List UInt8 → Except String TampCommunityUpdateConfirm
  seqNumAdjustConfirmFromDer : List UInt8 → Except String SequenceNumberAdjustConfirm
  errorFromDer : List UInt8 → Except String TampError

/-- The signing identity used to protect outbound messages. -/
structure SignerContext where
  key : KeyHandle
  ski : List UInt8
  algorithm : Algorithm
  deriving DecidableEq, Repr

/-- A signed message, ready for transport. -/
structure IssuedMessage where
  contentType : ObjectIdentifier
  messageName : String
  seqNum : ℕ
  envelope : List UInt8
  deriving DecidableEq, Repr

/-- A single trust-anchor edit. -/
inductive TrustAnchorEdit where
  | Add (ta : TrustAnchorChoice)
  | Remove (spki : List UInt8)
  | Change (spki : List UInt8) (change : TrustAnchorChangeInfoChoice)
  deriving DecidableEq, Repr

/-- The result of ingesting an inbound message. -/
structure IngestOutcome where
  contentType : ObjectIdentifier
  messageName : String
  seqNum : Option ℕ
  statusCodes : List StatusCode
  signerSki : List UInt8
  deriving DecidableEq, Repr

/-- The key of a trust anchor. -/
def TrustAnchorChoice.spki : TrustAnchorChoice → SubjectPublicKeyInfo
  | .Certificate cert => cert.tbsCertificate.subjectPublicKeyInfo
  | .TbsCert tbs => tbs.subjectPublicKeyInfo
  | .TaInfo info => info.pubKey

/-- The key id of a trust anchor. -/
def TrustAnchorChoice.keyId : TrustAnchorChoice → Option (List UInt8)
  | .TaInfo info => some info.keyId
  | _ => none

/-- The title of a trust anchor. -/
def TrustAnchorChoice.title : TrustAnchorChoice → Option String
  | .TaInfo info => info.taTitle
  | _ => none

/-- The DER of the key, the key id and the title. -/
abbrev TaIdentity : Type := List UInt8 × Option (List UInt8) × Option String

variable (env : Env)

/-- Extract the identity of a trust anchor. -/
def taIdentity (ta : TrustAnchorChoice) : Except Error TaIdentity := do
  let spki ← Cms.asn1 (env.spkiToDer ta.spki)
  return (spki, ta.keyId, ta.title)

/-- A sequence number in its column. -/
def seqToI64 (seq : ℕ) : Except Error ℤ :=
  if (seq : ℤ) ≤ maxBigint then .ok seq
  else .error (.SeqNumFailure
    s!"sequence number {seq} exceeds the RFC 5934 maximum (2^63-1)")

/-- `as u64`. -/
def asU64 (n : ℤ) : ℕ := (n % 18446744073709551616).toNat

/-! ### Issuing -/

/-- Get an existing target by its DER, or create it. -/
def getOrCreateTarget (targetDer : List UInt8) (label : String) : TampM Uuid := do
  match ← query (.findTargetByDer targetDer) with
  | some existing => return existing.id
  | none =>
    let id ← await .newUuid
    query (.insertTarget id label targetDer true)

/-- Allocate the next sequence number of a target and a signer. -/
def nextSeq (targetId : Uuid) (ourSki : List UInt8) : TampM ℕ := do
  let next ← query (.allocateNextSeq targetId ourSki)
  return asU64 next

/-- Sign a message body, and attach unsigned attributes. -/
def signMessageWithUnsignedAttrs (signer : SignerContext) (contentType : ObjectIdentifier)
    (content : List UInt8) (unsignedAttrs : List (ObjectIdentifier × Any)) :
    TampM (List UInt8) := do
  let tbs ← Prog.ofExcept (Cms.tbs env.codec contentType content)
  let rawSig ← Prog.ofExcept (Cms.crypto (← await (.sign signer.key signer.algorithm tbs)))
  Prog.ofExcept (Cms.envelope env.codec signer.ski contentType content signer.algorithm
    unsignedAttrs rawSig)

/-- Sign the body of an outbound message. -/
def signOutbound (signer : SignerContext) (contentType : ObjectIdentifier)
    (content : List UInt8) : TampM (List UInt8) :=
  signMessageWithUnsignedAttrs env signer contentType content []

/-- Record an issued message: the message is signed and written, so failures are only logged. -/
def finalize (label : String) (contentType : ObjectIdentifier) (messageName : String) (seq : ℕ)
    (envelope : List UInt8) : TampM IssuedMessage := do
  let _ ← await (.db .logMessage)
  await (.audit ⟨messageName, label, .Success⟩)
  return { contentType, messageName, seqNum := seq, envelope }

/-- Issue a signed `TAMPStatusQuery`. -/
def issueStatusQuery (target : TargetIdentifier) (label : String) (signer : SignerContext)
    (terse : Bool) : TampM IssuedMessage := do
  let targetDer ← Prog.ofExcept (Cms.asn1 (env.targetToDer target))
  let targetId ← getOrCreateTarget targetDer label
  let seq ← nextSeq targetId signer.ski
  let msg : TampStatusQuery :=
    { terse := if terse then .Terse else .Verbose, query := { target, seqNum := seq } }
  let der ← Prog.ofExcept (Cms.asn1 (env.messageToDer (.StatusQuery msg)))
  let envelope ← signOutbound env signer Oids.idCtTampStatusQuery der
  finalize label Oids.idCtTampStatusQuery "TAMPStatusQuery" seq envelope

/-- Validate an edit: what it says on the wire, and its deferred write. -/
def prepareEdit (targetId : Uuid) :
    TrustAnchorEdit → TampM (TrustAnchorUpdate × TrustAnchorWrite)
  | .Add ta => do
    let (spki, keyId, title) ← Prog.ofExcept (taIdentity env ta)
    let present ← query (.trustAnchorExists targetId spki)
    if present then
      .fail (.TrustAnchorUpdate
        "trust anchor with this public key already present (improperTAAddition)")
    else
      let taDer ← Prog.ofExcept (Cms.asn1 (env.anchorToDer ta))
      return (.Add ta, .Insert spki keyId title false taDer)
  | .Remove spki => do
    let spkiInfo ← Prog.ofExcept (Cms.asn1 (env.spkiFromDer spki))
    return (.Remove spkiInfo, .Remove spki)
  | .Change spki change => do
    let present ← query (.trustAnchorExists targetId spki)
    if !present then
      .fail (.TrustAnchorUpdate "trust anchor to change was not found (trustAnchorNotFound)")
    else
      let taDer ← Prog.ofExcept (Cms.asn1 (env.changeToDer change))
      return (.Change change, .Update spki taDer)

/-- Validate the edits, one after the other; nothing is written. -/
def prepareEdits (targetId : Uuid) :
    List TrustAnchorEdit → TampM (List (TrustAnchorUpdate × TrustAnchorWrite))
  | [] => return []
  | edit :: edits => do
    let prepared ← prepareEdit env targetId edit
    let rest ← prepareEdits targetId edits
    return prepared :: rest

/-- Issue a signed `TAMPUpdate` carrying trust-anchor edits. -/
def issueTrustAnchorUpdate (target : TargetIdentifier) (label : String) (signer : SignerContext)
    (edits : List TrustAnchorEdit) : TampM IssuedMessage :=
  if edits.isEmpty then
    .fail (.TrustAnchorUpdate "TAMPUpdate requires at least one trust anchor update")
  else do
    let targetDer ← Prog.ofExcept (Cms.asn1 (env.targetToDer target))
    let targetId ← getOrCreateTarget targetDer label
    let prepared ← prepareEdits env targetId edits
    let seq ← nextSeq targetId signer.ski
    let msg : TampUpdate := { msgRef := { target, seqNum := seq }, updates := prepared.map (·.1) }
    let der ← Prog.ofExcept (Cms.asn1 (env.messageToDer (.Update msg)))
    let envelope ← signOutbound env signer Oids.idCtTampUpdate der
    query (.applyTrustAnchorWrites targetId (prepared.map (·.2)))
    finalize label Oids.idCtTampUpdate "TAMPUpdate" seq envelope

/-- Issue a signed `TAMPCommunityUpdate`. -/
def issueCommunityUpdate (target : TargetIdentifier) (label : String) (signer : SignerContext)
    (add remove : List ObjectIdentifier) : TampM IssuedMessage :=
  if add.isEmpty && remove.isEmpty then
    .fail (.Other "community update requires at least one add or remove")
  else do
    let targetDer ← Prog.ofExcept (Cms.asn1 (env.targetToDer target))
    let targetId ← getOrCreateTarget targetDer label
    let seq ← nextSeq targetId signer.ski
    let msg : TampCommunityUpdate :=
      { msgRef := { target, seqNum := seq }
        remove := if remove.isEmpty then none else some remove
        add := if add.isEmpty then none else some add }
    let der ← Prog.ofExcept (Cms.asn1 (env.messageToDer (.CommunityUpdate msg)))
    let envelope ← signOutbound env signer Oids.idCtTampCommunityUpdate der
    query (.applyCommunityUpdate targetId remove add)
    finalize label Oids.idCtTampCommunityUpdate "TAMPCommunityUpdate" seq envelope

/-- Issue a signed `SequenceNumberAdjust`. -/
def issueSequenceNumberAdjust (target : TargetIdentifier) (label : String)
    (signer : SignerContext) : TampM IssuedMessage := do
  let targetDer ← Prog.ofExcept (Cms.asn1 (env.targetToDer target))
  let targetId ← getOrCreateTarget targetDer label
  let seq ← nextSeq targetId signer.ski
  let msg : SequenceNumberAdjust := { msgRef := { target, seqNum := seq } }
  let der ← Prog.ofExcept (Cms.asn1 (env.messageToDer (.SeqNumAdjust msg)))
  let envelope ← signOutbound env signer Oids.idCtTampSeqNumAdjust der
  finalize label Oids.idCtTampSeqNumAdjust "SequenceNumberAdjust" seq envelope

/-- The unsigned attribute that carries the contingency key. -/
def contingencyAttr (key : List UInt8) : Except Error (List (ObjectIdentifier × Any)) := do
  let value ← Cms.failing "contingency key attr" (env.codec.encodeOctets key)
  return [(Oids.idAaTampContingencyPublicKeyDecryptKey, value)]

/-- Sign the body of an apex update. -/
def signApexUpdate (signer : SignerContext) (der : List UInt8)
    (contingencyDecryptKey : Option (List UInt8)) : TampM (List UInt8) :=
  match contingencyDecryptKey with
  | some key => do
    let unsignedAttrs ← Prog.ofExcept (contingencyAttr env key)
    signMessageWithUnsignedAttrs env signer Oids.idCtTampApexUpdate der unsignedAttrs
  | none => signOutbound env signer Oids.idCtTampApexUpdate der

/-- Issue a signed `TAMPApexUpdate`. -/
def issueApexUpdate (target : TargetIdentifier) (label : String) (signer : SignerContext)
    (apexTa : TrustAnchorChoice) (clearTrustAnchors clearCommunities : Bool)
    (contingencyDecryptKey : Option (List UInt8)) : TampM IssuedMessage := do
  let targetDer ← Prog.ofExcept (Cms.asn1 (env.targetToDer target))
  let targetId ← getOrCreateTarget targetDer label
  let (spki, keyId, title) ← Prog.ofExcept (taIdentity env apexTa)
  let apexDer ← Prog.ofExcept (Cms.asn1 (env.anchorToDer apexTa))
  let seq ← nextSeq targetId signer.ski
  let msg : TampApexUpdate :=
    { msgRef := { target, seqNum := seq }, clearTrustAnchors, clearCommunities
      seqNumber := some seq, apexTa }
  let der ← Prog.ofExcept (Cms.asn1 (env.messageToDer (.ApexUpdate msg)))
  let envelope ← signApexUpdate env signer der contingencyDecryptKey
  query (.applyApexUpdate targetId clearTrustAnchors clearCommunities spki keyId title apexDer)
  finalize label Oids.idCtTampApexUpdate "TAMPApexUpdate" seq envelope

/-! ### Ingesting -/

/-- Register the public key that verifies the responses of a target. -/
def registerTargetSigner (target : TargetIdentifier) (label : String)
    (signerSki signerSpki : List UInt8) : TampM Unit := do
  let targetDer ← Prog.ofExcept (Cms.asn1 (env.targetToDer target))
  let targetId ← getOrCreateTarget targetDer label
  query (.registerTargetSigner targetId signerSki signerSpki)
  await (.audit ⟨"RegisterTargetSigner", label, .Success⟩)

def UpdateConfirm.codes : UpdateConfirm → List StatusCode
  | .Terse codes => codes
  | .Verbose status => status

def SingleConfirm.code : SingleConfirm → StatusCode
  | .Terse code => code
  | .Verbose status => status

/-- An inbound message: its name, its sequence number and its status codes. -/
abbrev Inbound : Type := String × Option ℕ × List StatusCode

/-- Decode an inbound message body by content type. -/
def decodeInbound (contentType : ObjectIdentifier) (content : List UInt8) :
    Except Error Inbound :=
  if contentType = Oids.idCtTampStatusResponse then do
    let m ← Cms.asn1 (env.statusResponseFromDer content)
    return ("TAMPStatusResponse", some m.query.seqNum, [])
  else if contentType = Oids.idCtTampUpdateConfirm then do
    let m ← Cms.asn1 (env.updateConfirmFromDer content)
    return ("TAMPUpdateConfirm", some m.update.seqNum, m.confirm.codes)
  else if contentType = Oids.idCtTampApexUpdateConfirm then do
    let m ← Cms.asn1 (env.apexUpdateConfirmFromDer content)
    return ("TAMPApexUpdateConfirm", some m.apexReplace.seqNum, [m.apexConfirm.code])
  else if contentType = Oids.idCtTampCommunityUpdateConfirm then do
    let m ← Cms.asn1 (env.communityUpdateConfirmFromDer content)
    return ("TAMPCommunityUpdateConfirm", some m.update.seqNum, [m.commConfirm.code])
  else if contentType = Oids.idCtTampSeqNumAdjustConfirm then do
    let m ← Cms.asn1 (env.seqNumAdjustConfirmFromDer content)
    return ("SequenceNumberAdjustConfirm", some m.adjust.seqNum, [m.status])
  else if contentType = Oids.idCtTampError then do
    let m ← Cms.asn1 (env.errorFromDer content)
    return ("TAMPError", m.msgRef.map (·.seqNum), [m.status])
  else .error (.Cms s!"unexpected inbound TAMP content type {contentType}")

/-- Replay protection for the target's signer. -/
def checkReplay (targetId : Uuid) (label messageName : String) (signerSki : List UInt8) :
    Option ℕ → TampM Unit
  | none => return ()
  | some seq => do
    let seqI64 ← Prog.ofExcept (seqToI64 seq)
    let fresh ← query (.checkAndAdvanceSeq targetId signerSki seqI64)
    if fresh then return ()
    else
      await (.audit ⟨messageName, label, .Failure⟩)
      .fail (.SeqNumFailure
        s!"inbound sequence number {seq} is not greater than stored baseline")

/-- Verify and record an inbound signed message. -/
def ingest (target : TargetIdentifier) (label : String) (contentInfoDer : List UInt8) :
    TampM IngestOutcome := do
  let parsed ← Prog.ofExcept (Cms.parse env.codec contentInfoDer)
  let targetDer ← Prog.ofExcept (Cms.asn1 (env.targetToDer target))
  let targetId ← getOrCreateTarget targetDer label
  let found ← query (.findTargetSignerSpki targetId parsed.signerSki)
  let signerSpki ← Prog.ofExcept (Cms.okOr .NoTrustAnchor found)
  Prog.ofExcept (Cms.verify env.codec parsed signerSpki)
  let (messageName, seqNum, statusCodes) ←
    Prog.ofExcept (decodeInbound env parsed.contentType parsed.content)
  checkReplay targetId label messageName parsed.signerSki seqNum
  query .logMessage
  let outcome : EventOutcome := if statusCodes.all (·.isSuccess) then .Success else .Failure
  await (.audit ⟨messageName, label, outcome⟩)
  return { contentType := parsed.contentType, messageName, seqNum, statusCodes
           signerSki := parsed.signerSki }

/-! ### The system -/

inductive Task where
  | issueStatusQuery (target : TargetIdentifier) (label : String) (signer : SignerContext)
      (terse : Bool)
  | issueTrustAnchorUpdate (target : TargetIdentifier) (label : String) (signer : SignerContext)
      (edits : List TrustAnchorEdit)
  | issueCommunityUpdate (target : TargetIdentifier) (label : String) (signer : SignerContext)
      (add remove : List ObjectIdentifier)
  | issueSequenceNumberAdjust (target : TargetIdentifier) (label : String)
      (signer : SignerContext)
  | issueApexUpdate (target : TargetIdentifier) (label : String) (signer : SignerContext)
      (apexTa : TrustAnchorChoice) (clearTrustAnchors clearCommunities : Bool)
      (contingencyDecryptKey : Option (List UInt8))
  | registerTargetSigner (target : TargetIdentifier) (label : String)
      (signerSki signerSpki : List UInt8)
  | ingest (target : TargetIdentifier) (label : String) (contentInfoDer : List UInt8)

inductive Result where
  | issued (m : IssuedMessage)
  | registered
  | ingested (o : IngestOutcome)
  deriving DecidableEq, Repr

/-- The programs of the tasks. -/
def body : Task → TampM Result
  | .issueStatusQuery target label signer terse =>
    .issued <$> issueStatusQuery env target label signer terse
  | .issueTrustAnchorUpdate target label signer edits =>
    .issued <$> issueTrustAnchorUpdate env target label signer edits
  | .issueCommunityUpdate target label signer add remove =>
    .issued <$> issueCommunityUpdate env target label signer add remove
  | .issueSequenceNumberAdjust target label signer =>
    .issued <$> issueSequenceNumberAdjust env target label signer
  | .issueApexUpdate target label signer apexTa clearTrustAnchors clearCommunities key =>
    .issued <$> issueApexUpdate env target label signer apexTa clearTrustAnchors
      clearCommunities key
  | .registerTargetSigner target label signerSki signerSpki =>
    (fun _ => .registered) <$> registerTargetSigner env target label signerSki signerSpki
  | .ingest target label contentInfoDer => .ingested <$> ingest env target label contentInfoDer

/-- What the tasks do not control. -/
structure Choice where
  fault : Fault
  uuid : Uuid
  signature : Except String (List UInt8)

/-- Answer a call. -/
def exec (e : Call) (c : Choice) (s : Store) : Reply e × Store :=
  match e with
  | .db q => q.exec c.fault s
  | .newUuid => (c.uuid, s)
  | .sign .. => (c.signature, s)
  | .audit _ => ((), s)

/-- The manager over its store. -/
def system : System Call Reply Error Result Task Store Choice where
  body := body env
  exec := exec
  spawned := fun _ => none

abbrev TampEvent := Event Call Reply Error Result Task
abbrev TampWorld := World Call Reply Error Result Task Store
abbrev TampState := Config Call Reply Error Result Task Store

end Ostrich.Tamp
