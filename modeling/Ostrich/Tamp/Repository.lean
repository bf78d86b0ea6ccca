import Mathlib.Data.Int.Notation
import Ostrich.Lib.Table
import Ostrich.Lib.Uuid
import Ostrich.Tamp.Types

/-!
# The TAMP tables (`ostrich-db/src/repository/tamp.rs`, `migrations/00014_*`, `00015_*`)

A method of the repository is a `Query`, which runs atomically (`Query.run`): it is one statement or
one transaction.  A `UNIQUE` constraint, the partial index that allows one apex for each target, a
`REFERENCES` constraint or a text that does not fit its column makes the whole of it fail.
-/

namespace Ostrich.Tamp

open Table

/-! ### Rows -/

/-- A managed target. -/
structure TampTargetRow where
  id : Uuid
  label : String
  targetDer : List UInt8
  usesApex : Bool
  deriving DecidableEq

/-- The last sequence number of a signer. -/
structure SequenceNumberRow where
  targetId : Uuid
  signerKeyId : List UInt8
  lastSeqNumber : ℤ
  deriving DecidableEq

/-- A trust anchor installed in a target's store. -/
structure TampTrustAnchorRow where
  targetId : Uuid
  pubKeySpki : List UInt8
  keyId : Option (List UInt8)
  taTitle : Option String
  isApex : Bool
  taDer : List UInt8
  deriving DecidableEq

/-- A community of a target. -/
structure CommunityRow where
  targetId : Uuid
  communityOid : String
  deriving DecidableEq

/-- The key of a target's response signer. -/
structure TargetSignerRow where
  targetId : Uuid
  signerKeyId : List UInt8
  spki : List UInt8
  deriving DecidableEq

def SequenceNumberRow.key (row : SequenceNumberRow) : Uuid × List UInt8 :=
  (row.targetId, row.signerKeyId)

def TampTrustAnchorRow.key (row : TampTrustAnchorRow) : Uuid × List UInt8 :=
  (row.targetId, row.pubKeySpki)

def CommunityRow.key (row : CommunityRow) : Uuid × String := (row.targetId, row.communityOid)

def TargetSignerRow.key (row : TargetSignerRow) : Uuid × List UInt8 :=
  (row.targetId, row.signerKeyId)

abbrev Anchors : Type := Keyed TampTrustAnchorRow.key

/-- The tables, each with its `UNIQUE` constraint. -/
structure Store where
  targets : Keyed TampTargetRow.targetDer := .empty _
  sequenceNumbers : Keyed SequenceNumberRow.key := .empty _
  trustAnchors : Anchors := .empty _
  communities : Keyed CommunityRow.key := .empty _
  signers : Keyed TargetSignerRow.key := .empty _

/-- The target exists, as `REFERENCES tamp_targets(id)` requires. -/
def Store.hasTarget (s : Store) (id : Uuid) : Bool := s.targets.rows.any (·.id = id)

/-- The text that a `VARCHAR(n)` column keeps: spaces after the `n`-th character are cut off, other
text that is longer does not fit, and no text has a zero character. -/
def varchar (n : ℕ) (text : String) : Option String :=
  if text.toList.contains (Char.ofNat 0) then none
  else if (text.toList.drop n).all (· = ' ') then some (String.ofList (text.toList.take n))
  else none

/-- The last number of a `BIGINT`. -/
def maxBigint : ℤ := 9223372036854775807

/-! ### Writes -/

/-- A single mutation to a target's trust-anchor store. -/
inductive TrustAnchorWrite where
  | Insert (pubKeySpki : List UInt8) (keyId : Option (List UInt8)) (taTitle : Option String)
      (isApex : Bool) (taDer : List UInt8)
  | Remove (pubKeySpki : List UInt8)
  | Update (pubKeySpki taDer : List UInt8)
  deriving DecidableEq, Repr

def duplicate : String := "Database query error: duplicate key value violates unique constraint"

/-- The title in its column. -/
def storedTitle : Option String → Except String (Option String)
  | none => .ok none
  | some title =>
    match varchar 64 title with
    | none => .error "Database query error: value too long for type character varying(64)"
    | some kept => .ok (some kept)

/-- The target has an apex. -/
def Store.hasApex (s : Store) (targetId : Uuid) : Bool :=
  s.trustAnchors.rows.any fun row => row.targetId = targetId && row.isApex

/-- A statement that inserts rows of this target. -/
def Store.referring {α : Type} (s : Store) (targetId : Uuid) (x : Except String α) :
    Except String α :=
  if s.hasTarget targetId then x
  else .error "Database query error: insert violates foreign key constraint"

/-- `INSERT INTO tamp_trust_anchors`. -/
def insertAnchor (row : TampTrustAnchorRow) (s : Store) : Except String Store :=
  if row.isApex && s.hasApex row.targetId then .error duplicate
  else
    match s.trustAnchors.insert? row with
    | none => .error duplicate
    | some trustAnchors => s.referring row.targetId (.ok { s with trustAnchors })

/-- `DELETE FROM tamp_trust_anchors WHERE …`. -/
def deleteAnchors (p : TampTrustAnchorRow → Bool) (s : Store) : Store :=
  { s with trustAnchors := s.trustAnchors.retain fun row => !p row }

/-- `UPDATE tamp_trust_anchors SET ta_der = …`. -/
def updateAnchor (key : Uuid × List UInt8) (taDer : List UInt8) (s : Store) : Store :=
  let changed (row : TampTrustAnchorRow) : TampTrustAnchorRow := { row with taDer }
  { s with trustAnchors := s.trustAnchors.modify (·.key = key) changed fun _ => rfl }

/-- Apply a single write. -/
def applyOneWrite (targetId : Uuid) (s : Store) : TrustAnchorWrite → Except String Store
  | .Insert pubKeySpki keyId taTitle isApex taDer => do
    let taTitle ← storedTitle taTitle
    insertAnchor { targetId, pubKeySpki, keyId, taTitle, isApex, taDer } s
  | .Remove pubKeySpki => .ok (deleteAnchors (·.key = (targetId, pubKeySpki)) s)
  | .Update pubKeySpki taDer => .ok (updateAnchor (targetId, pubKeySpki) taDer s)

/-- Apply a batch of trust-anchor writes in one transaction. -/
def applyTrustAnchorWrites (targetId : Uuid) (writes : List TrustAnchorWrite) (s : Store) :
    Except String Store :=
  writes.foldlM (applyOneWrite targetId) s

/-- `INSERT INTO tamp_communities … ON CONFLICT DO NOTHING`. -/
def addCommunity (targetId : Uuid) (s : Store) (communityOid : String) : Except String Store :=
  match s.communities.insert? { targetId, communityOid } with
  | none => .ok s
  | some communities => s.referring targetId (.ok { s with communities })

/-- Remove the communities, then add the others, in one transaction. -/
def applyCommunityUpdate (targetId : Uuid) (remove add : List String) (s : Store) :
    Except String Store :=
  let removed (row : CommunityRow) : Bool :=
    row.targetId = targetId && remove.contains row.communityOid
  add.foldlM (addCommunity targetId)
    { s with communities := s.communities.retain fun row => !removed row }

/-- Apply an apex update in one transaction: the clears, then the removal of the row with the key of
the new apex, then its insertion. -/
def applyApexUpdate (targetId : Uuid) (clearTrustAnchors clearCommunities : Bool)
    (pubKeySpki : List UInt8) (keyId : Option (List UInt8)) (taTitle : Option String)
    (taDer : List UInt8) (s : Store) : Except String Store :=
  let s := if clearTrustAnchors then
    deleteAnchors (fun row => row.targetId = targetId && !row.isApex) s else s
  let s := if clearCommunities then
    { s with communities := s.communities.retain fun row => row.targetId ≠ targetId } else s
  let s := deleteAnchors (·.key = (targetId, pubKeySpki)) s
  applyOneWrite targetId s (.Insert pubKeySpki keyId taTitle true taDer)

/-! ### Queries -/

/-- The methods of the repository that the manager calls. -/
inductive Query where
  | findTargetByDer (targetDer : List UInt8)
  | insertTarget (id : Uuid) (label : String) (targetDer : List UInt8) (usesApex : Bool)
  | checkAndAdvanceSeq (targetId : Uuid) (signerKeyId : List UInt8) (newSeq : ℤ)
  | allocateNextSeq (targetId : Uuid) (signerKeyId : List UInt8)
  | trustAnchorExists (targetId : Uuid) (spki : List UInt8)
  | applyTrustAnchorWrites (targetId : Uuid) (writes : List TrustAnchorWrite)
  | applyCommunityUpdate (targetId : Uuid) (remove add : List String)
  | applyApexUpdate (targetId : Uuid) (clearTrustAnchors clearCommunities : Bool)
      (pubKeySpki : List UInt8) (keyId : Option (List UInt8)) (taTitle : Option String)
      (taDer : List UInt8)
  | registerTargetSigner (targetId : Uuid) (signerKeyId spki : List UInt8)
  | findTargetSignerSpki (targetId : Uuid) (signerKeyId : List UInt8)
  /-- The log of messages, which nothing reads. -/
  | logMessage
  deriving DecidableEq

/-- What a query returns. -/
abbrev Query.Result : Query → Type
  | .findTargetByDer _ => Option TampTargetRow
  | .insertTarget .. => Uuid
  | .checkAndAdvanceSeq .. | .trustAnchorExists .. => Bool
  | .allocateNextSeq .. => ℤ
  | .applyTrustAnchorWrites .. | .applyCommunityUpdate .. | .applyApexUpdate .. => Unit
  | .registerTargetSigner .. | .logMessage => Unit
  | .findTargetSignerSpki .. => Option (List UInt8)

/-- `INSERT … ON CONFLICT (target_der) DO UPDATE … RETURNING id`. -/
def insertTarget (id : Uuid) (label : String) (targetDer : List UInt8) (usesApex : Bool)
    (s : Store) : Except String (Uuid × Store) :=
  match varchar 255 label with
  | none => .error "Database query error: value too long for type character varying(255)"
  | some label =>
    match s.targets.get targetDer with
    | some row => .ok (row.id, s)
    | none =>
      if s.hasTarget id then .error duplicate
      else .ok (id, { s with targets := s.targets.put { id, label, targetDer, usesApex } })

/-- Set the last sequence number of a signer. -/
def Store.setSeq (s : Store) (targetId : Uuid) (signerKeyId : List UInt8) (lastSeqNumber : ℤ) :
    Store :=
  { s with sequenceNumbers := s.sequenceNumbers.put { targetId, signerKeyId, lastSeqNumber } }

/-- The last sequence number of a signer. -/
def Store.lastSeq (s : Store) (targetId : Uuid) (signerKeyId : List UInt8) : Option ℤ :=
  (s.sequenceNumbers.get (targetId, signerKeyId)).map (·.lastSeqNumber)

/-- One statement or transaction. -/
def Query.run (q : Query) (s : Store) : Except String (q.Result × Store) :=
  match q with
  | .findTargetByDer targetDer => .ok (s.targets.get targetDer, s)
  | .insertTarget id label targetDer usesApex => Tamp.insertTarget id label targetDer usesApex s
  | .checkAndAdvanceSeq targetId signerKeyId newSeq =>
    match s.lastSeq targetId signerKeyId with
    | some stored =>
      if newSeq ≤ stored then .ok (false, s) else .ok (true, s.setSeq targetId signerKeyId newSeq)
    | none => s.referring targetId (.ok (true, s.setSeq targetId signerKeyId newSeq))
  | .allocateNextSeq targetId signerKeyId =>
    match s.lastSeq targetId signerKeyId with
    | some last =>
      if last = maxBigint then .error "Database query error: bigint out of range"
      else .ok (last + 1, s.setSeq targetId signerKeyId (last + 1))
    | none => s.referring targetId (.ok (1, s.setSeq targetId signerKeyId 1))
  | .trustAnchorExists targetId spki => .ok ((s.trustAnchors.get (targetId, spki)).isSome, s)
  | .applyTrustAnchorWrites targetId writes =>
    (Tamp.applyTrustAnchorWrites targetId writes s).map ((), ·)
  | .applyCommunityUpdate targetId remove add =>
    (Tamp.applyCommunityUpdate targetId remove add s).map ((), ·)
  | .applyApexUpdate targetId clearTrustAnchors clearCommunities pubKeySpki keyId taTitle taDer =>
    (Tamp.applyApexUpdate targetId clearTrustAnchors clearCommunities pubKeySpki keyId taTitle
      taDer s).map ((), ·)
  | .registerTargetSigner targetId signerKeyId spki =>
    s.referring targetId (.ok ((), { s with
      signers := s.signers.put { targetId, signerKeyId, spki } }))
  | .findTargetSignerSpki targetId signerKeyId =>
    .ok ((s.signers.get (targetId, signerKeyId)).map (·.spki), s)
  | .logMessage => .ok ((), s)

/-! ### Connections that fail -/

/-- How a statement can fail besides its constraints: before it ran, or after it ran but before its
result arrived. -/
inductive Fault where
  | none
  | before
  | after
  deriving DecidableEq, Repr

/-- The result of a statement. -/
inductive DbReply (α : Type) where
  | ok (a : α)
  | error (e : String)
  /-- The connection was lost. -/
  | lost

/-- Run a query over a connection that may fail. -/
def Query.exec (q : Query) (fault : Fault) (s : Store) : DbReply q.Result × Store :=
  match fault, q.run s with
  | .before, _ => (.lost, s)
  | .none, .error e => (.error e, s)
  | .none, .ok (a, s') => (.ok a, s')
  | .after, .error _ => (.lost, s)
  | .after, .ok (_, s') => (.lost, s')

end Ostrich.Tamp
