import Ostrich.Lib.Sha256
import Ostrich.Tamp.Manager

/-!
# An instance of the TAMP manager

The encodings of the structures, for the object identifiers below and for trust anchors in their
shortest form.  What is decoded are the encodings of given structures, and the signatures that
verify are given.
-/

namespace Ostrich.Tamp

open Der

/-! ### Encodings -/

/-- The content of the object identifiers. -/
def oids : List (ObjectIdentifier × List UInt8) :=
  [(Cms.idContentType, [0x2A, 0x86, 0x48, 0x86, 0xF7, 0x0D, 0x01, 0x09, 0x03]),
    (Cms.idMessageDigest, [0x2A, 0x86, 0x48, 0x86, 0xF7, 0x0D, 0x01, 0x09, 0x04]),
    (Oids.idSignedData, [0x2A, 0x86, 0x48, 0x86, 0xF7, 0x0D, 0x01, 0x07, 0x02]),
    ("2.16.840.1.101.3.4.2.1", [0x60, 0x86, 0x48, 0x01, 0x65, 0x03, 0x04, 0x02, 0x01]),
    ("1.3.101.112", [0x2B, 0x65, 0x70]),
    (Oids.idCtTampUpdate, [0x60, 0x86, 0x48, 0x01, 0x65, 0x02, 0x01, 0x02, 0x4D, 0x03]),
    (Oids.idCtTampUpdateConfirm, [0x60, 0x86, 0x48, 0x01, 0x65, 0x02, 0x01, 0x02, 0x4D, 0x04]),
    (Oids.idCtTampApexUpdate, [0x60, 0x86, 0x48, 0x01, 0x65, 0x02, 0x01, 0x02, 0x4D, 0x05]),
    (Oids.idCtTampCommunityUpdate, [0x60, 0x86, 0x48, 0x01, 0x65, 0x02, 0x01, 0x02, 0x4D, 0x07]),
    (Oids.idCtTampError, [0x60, 0x86, 0x48, 0x01, 0x65, 0x02, 0x01, 0x02, 0x4D, 0x09])]

/-- The encoding of an object identifier. -/
def oidDer (oid : ObjectIdentifier) : Except String (List UInt8) :=
  match oids.find? (·.1 = oid) with
  | some found => .ok (tlv 0x06 found.2)
  | none => .error "unknown object identifier"

def attributeDer (attr : Attribute) : Except String (List UInt8) := do
  let oid ← oidDer attr.oid
  return tlv 0x30 (oid ++ tlv 0x31 attr.values.flatten)

/-- The encodings of attributes, one after the other. -/
def attributesDer (attrs : List Attribute) : Except String (List UInt8) := do
  let ders ← attrs.mapM attributeDer
  return ders.flatten

/-- Insert an attribute where the order of the encodings has it. -/
def insertSorted : List Attribute → Attribute → Except String (List Attribute)
  | [], attr => .ok [attr]
  | first :: rest, attr => do
    let der ← attributeDer attr
    let firstDer ← attributeDer first
    if der = firstDer then .error "duplicate"
    else if der < firstDer then return attr :: first :: rest
    else
      let rest ← insertSorted rest attr
      return first :: rest

def signerInfoDer (signer : SignerInfo) : Except String (List UInt8) :=
  match signer.sid, signer.signedAttrs, signer.unsignedAttrs with
  | .SubjectKeyIdentifier ski, some signedAttrs, none => do
    let sha256 ← oidDer "2.16.840.1.101.3.4.2.1"
    let attrs ← attributesDer signedAttrs
    let algorithm ← oidDer signer.signatureAlgorithm
    return tlv 0x30 (tlv 0x02 [3] ++ tlv 0x80 ski ++ tlv 0x30 sha256 ++ tlv 0xA0 attrs ++
      tlv 0x30 algorithm ++ tlv 0x04 signer.signature)
  | _, _, _ => .error "unsupported signer"

def signedDataDer (signed : SignedData) : Except String (List UInt8) := do
  let sha256 ← oidDer "2.16.840.1.101.3.4.2.1"
  let contentType ← oidDer signed.econtentType
  let content := signed.econtent.elim [] fun content => tlv 0xA0 content
  let signers ← signed.signerInfos.mapM signerInfoDer
  return tlv 0x30 (tlv 0x02 [3] ++ tlv 0x31 (tlv 0x30 sha256) ++
    tlv 0x30 (contentType ++ content) ++ tlv 0x31 signers.flatten)

def contentInfoDer (info : ContentInfo) : Except String (List UInt8) := do
  let contentType ← oidDer info.contentType
  return tlv 0x30 (contentType ++ tlv 0xA0 info.content)

/-- The content of a key. -/
def spkiContent (spki : SubjectPublicKeyInfo) : List UInt8 :=
  spki.algorithm ++ tlv 0x03 (0 :: spki.subjectPublicKey)

def spkiDer (spki : SubjectPublicKeyInfo) : List UInt8 := tlv 0x30 (spkiContent spki)

def titleDer (title : Option String) : List UInt8 :=
  title.elim [] fun title => tlv 0x0C title.toUTF8.toList

def anchorDer : TrustAnchorChoice → Except String (List UInt8)
  | .TaInfo ⟨pubKey, keyId, taTitle, none, none, none⟩ =>
    .ok (tlv 0xA2 (tlv 0x30 (spkiDer pubKey ++ tlv 0x04 keyId ++ titleDer taTitle)))
  | _ => .error "unsupported trust anchor"

def changeDer : TrustAnchorChangeInfoChoice → Except String (List UInt8)
  | .TaChange ⟨pubKey, keyId, taTitle, none, none⟩ =>
    .ok (tlv 0xA1 (spkiDer pubKey ++ keyId.elim [] (fun keyId => tlv 0x04 keyId) ++
      titleDer taTitle))
  | _ => .error "unsupported change"

def targetDer : TargetIdentifier → Except String (List UInt8)
  | .AllModules => .ok [0x83, 0x00]
  | .Uri uri => .ok (tlv 0x84 uri.toUTF8.toList)
  | _ => .error "unsupported target"

def msgRefDer (ref : TampMsgRef) : Except String (List UInt8) := do
  let target ← targetDer ref.target
  return tlv 0x30 (target ++ tlv 0x02 (uintContent ref.seqNum))

def updateDer : TrustAnchorUpdate → Except String (List UInt8)
  | .Add ta => do
    let der ← anchorDer ta
    return tlv 0xA1 der
  | .Remove spki => .ok (tlv 0xA2 (spkiContent spki))
  | .Change change => do
    let der ← changeDer change
    return tlv 0xA3 der

def boolDer (b : Bool) : List UInt8 := tlv 0x01 [if b then 0xFF else 0x00]

def messageDer : OutboundMessage → Except String (List UInt8)
  | .StatusQuery m => do
    let ref ← msgRefDer m.query
    return tlv 0x30 (if m.terse = .Terse then tlv 0x81 [1] ++ ref else ref)
  | .Update m => do
    let ref ← msgRefDer m.msgRef
    let updates ← m.updates.mapM updateDer
    return tlv 0x30 (ref ++ tlv 0x30 updates.flatten)
  | .ApexUpdate m => do
    let ref ← msgRefDer m.msgRef
    let apex ← anchorDer m.apexTa
    return tlv 0x30 (ref ++ boolDer m.clearTrustAnchors ++ boolDer m.clearCommunities ++
      m.seqNumber.elim [] (fun n => tlv 0x02 (uintContent n)) ++ apex)
  | .CommunityUpdate _ => .error "unsupported communities"
  | .SeqNumAdjust m => do
    let ref ← msgRefDer m.msgRef
    return tlv 0x30 ref

/-- The encoding of an error with the status `other`. -/
def errorDer : TampError → Except String (List UInt8)
  | ⟨msgType, .Other, msgRef⟩ => do
    let oid ← oidDer msgType
    let ref ← msgRef.elim (.ok []) msgRefDer
    return tlv 0x30 (oid ++ tlv 0x0A [0x7F] ++ ref)
  | _ => .error "unsupported error"

/-! ### Decoding -/

/-- What is decoded, and what verifies. -/
structure Known where
  keys : List SubjectPublicKeyInfo
  signed : List SignedData
  errors : List TampError
  /-- Keys, what was signed, and signatures. -/
  signatures : List (List UInt8 × List UInt8 × List UInt8)

/-- The given value with this encoding. -/
def decode {α : Type} (encode : α → Except String (List UInt8)) (known : List α)
    (der : List UInt8) : Except String α :=
  match known.find? fun a => (encode a).toOption = some der with
  | some a => .ok a
  | none => .error "malformed"

variable (known : Known)

/-- The content infos of the given signed data. -/
def contentInfos : List ContentInfo :=
  known.signed.filterMap fun signed =>
    (signedDataDer signed).toOption.map fun content => ⟨Oids.idSignedData, content⟩

/-- The contents of the given signed data, as octets. -/
def contents : List (List UInt8) :=
  known.signed.flatMap fun signed =>
    signed.econtent.toList.filterMap fun any => (readTlv any).map (·.2.1)

/-- The sets of attributes of the given signed data. -/
def attributeSets : List (List Attribute) :=
  known.signed.flatMap fun signed =>
    signed.signerInfos.filterMap (·.signedAttrs)

/-- The content of an OCTET STRING. -/
def octets (any : Any) : Except String (List UInt8) :=
  match readTlv any with
  | some (0x04, content, []) => .ok content
  | _ => .error "not an OCTET STRING"

def setDer (attrs : List Attribute) : Except String (List UInt8) := do
  let der ← attributesDer attrs
  return tlv 0x31 der

def codec : Codec where
  contentInfoFromDer := decode contentInfoDer (contentInfos known)
  contentInfoToDer := contentInfoDer
  decodeSignedData := decode signedDataDer known.signed
  encodeSignedData := signedDataDer
  decodeOctets := octets
  encodeOctets := fun bytes => .ok (tlv 0x04 bytes)
  encodeOid := oidDer
  insertAttribute := insertSorted
  attributesFromDer := decode setDer (attributeSets known)
  attributesToDer := setDer
  sha256 := Sha256.digest
  verifyWithSpki := fun spki _ message signature _ =>
    .ok (known.signatures.contains (spki, message, signature))

def derEnv : Env where
  codec := codec known
  targetToDer := targetDer
  spkiToDer := fun spki => .ok (spkiDer spki)
  spkiFromDer := decode (fun spki => .ok (spkiDer spki)) known.keys
  anchorToDer := anchorDer
  changeToDer := changeDer
  messageToDer := messageDer
  statusResponseFromDer := fun _ => .error "malformed"
  updateConfirmFromDer := fun _ => .error "malformed"
  apexUpdateConfirmFromDer := fun _ => .error "malformed"
  communityUpdateConfirmFromDer := fun _ => .error "malformed"
  seqNumAdjustConfirmFromDer := fun _ => .error "malformed"
  errorFromDer := decode errorDer known.errors

/-! ### Trust anchors and choices -/

/-- An Ed25519 key. -/
def ed25519 (octet : UInt8) : SubjectPublicKeyInfo where
  algorithm := tlv 0x30 [0x06, 0x03, 0x2B, 0x65, 0x70]
  subjectPublicKey := List.replicate 32 octet

/-- A trust anchor with a key and no title. -/
def anchor (octet : UInt8) : TrustAnchorChoice :=
  .TaInfo ⟨ed25519 octet, [octet], none, none, none, none⟩

/-- The signer of the manager. -/
def signer : SignerContext := ⟨"management", [0x01], .Ed25519⟩

/-- All goes well. -/
def calm (bits : BitVec 128) : Choice := ⟨.none, ⟨bits⟩, .ok (List.replicate 64 0)⟩

/-- Steps of a task in which all goes well. -/
def steps (i n : ℕ) : List (Interleave.Action Task Choice) := List.replicate n (.run i (calm 1))

/-- A task from its start to its end, in so many steps. -/
def whole (i : ℕ) (t : Task) (n : ℕ) : List (Interleave.Action Task Choice) :=
  .arrive t :: steps i n

/-- Nothing is decoded. -/
def nothingKnown : Known := ⟨[], [], [], []⟩

end Ostrich.Tamp
