import Mathlib.Data.Nat.Notation
import Mathlib.Tactic.Common

/-!
# Data of the Trust Anchor Management Protocol (`ostrich-tamp/src/asn1.rs`, `statuscode.rs`,
`oids.rs`, `error.rs`)

A structure of another crate is given by the parts that the manager reads; the rest of it is a byte
string.  The defaults of the ASN.1 modules (version, `terse`) are not written.
-/

namespace Ostrich.Tamp

/-- A dotted OID. -/
abbrev ObjectIdentifier : Type := String

inductive StatusCode where
  | Success | DecodeFailure | BadContentInfo | BadSignedData | BadEncapContent | BadCertificate
  | BadSignerInfo | BadSignedAttrs | BadUnsignedAttrs | MissingContent | NoTrustAnchor
  | NotAuthorized | BadDigestAlgorithm | BadSignatureAlgorithm | UnsupportedKeySize
  | UnsupportedParameters | SignatureFailure | InsufficientMemory | UnsupportedTampMsgType
  | ApexTampAnchor | ImproperTaAddition | SeqNumFailure | ContingencyPublicKeyDecrypt
  | IncorrectTarget | CommunityUpdateFailed | TrustAnchorNotFound | UnsupportedTaAlgorithm
  | UnsupportedTaKeySize | UnsupportedContinPubKeyDecryptAlg | MissingSignature | ResourcesBusy
  | VersionNumberMismatch | MissingPolicySet | RevokedCertificate | UnsupportedTrustAnchorFormat
  | ImproperTaChange | Malformed | CmsError | UnsupportedTargetIdentifier | Other
  deriving DecidableEq, Repr

def StatusCode.isSuccess (c : StatusCode) : Bool := c = .Success

/-- A TAMP processing error. -/
inductive Error where
  | Asn1 (e : String)
  | Cms (message : String)
  | SignatureFailure (message : String)
  | NoTrustAnchor
  | SeqNumFailure (message : String)
  | TrustAnchorUpdate (message : String)
  | Crypto (e : String)
  | Storage (message : String)
  | Other (message : String)
  deriving DecidableEq, Repr

/-! ### Content types -/

namespace Oids

def idCtTampStatusQuery : ObjectIdentifier := "2.16.840.1.101.2.1.2.77.1"
def idCtTampStatusResponse : ObjectIdentifier := "2.16.840.1.101.2.1.2.77.2"
def idCtTampUpdate : ObjectIdentifier := "2.16.840.1.101.2.1.2.77.3"
def idCtTampUpdateConfirm : ObjectIdentifier := "2.16.840.1.101.2.1.2.77.4"
def idCtTampApexUpdate : ObjectIdentifier := "2.16.840.1.101.2.1.2.77.5"
def idCtTampApexUpdateConfirm : ObjectIdentifier := "2.16.840.1.101.2.1.2.77.6"
def idCtTampCommunityUpdate : ObjectIdentifier := "2.16.840.1.101.2.1.2.77.7"
def idCtTampCommunityUpdateConfirm : ObjectIdentifier := "2.16.840.1.101.2.1.2.77.8"
def idCtTampError : ObjectIdentifier := "2.16.840.1.101.2.1.2.77.9"
def idCtTampSeqNumAdjust : ObjectIdentifier := "2.16.840.1.101.2.1.2.77.10"
def idCtTampSeqNumAdjustConfirm : ObjectIdentifier := "2.16.840.1.101.2.1.2.77.11"
def idAaTampContingencyPublicKeyDecryptKey : ObjectIdentifier := "2.16.840.1.101.2.1.5.63"
def idSignedData : ObjectIdentifier := "1.2.840.113549.1.7.2"

end Oids

/-! ### Trust anchors (RFC 5914) -/

/-- The DER of an algorithm identifier, and the octets of the key. -/
structure SubjectPublicKeyInfo where
  algorithm : List UInt8
  subjectPublicKey : List UInt8
  deriving DecidableEq, Repr

/-- `rest` is the encoding of the other fields. -/
structure TbsCertificate where
  subjectPublicKeyInfo : SubjectPublicKeyInfo
  rest : List UInt8
  deriving DecidableEq, Repr

structure Certificate where
  tbsCertificate : TbsCertificate
  signature : List UInt8
  deriving DecidableEq, Repr

/-- `certPath` and `exts` are encodings. -/
structure TrustAnchorInfo where
  pubKey : SubjectPublicKeyInfo
  keyId : List UInt8
  taTitle : Option String
  certPath : Option (List UInt8)
  exts : Option (List UInt8)
  taTitleLangTag : Option String
  deriving DecidableEq, Repr

inductive TrustAnchorChoice where
  | Certificate (cert : Certificate)
  | TbsCert (tbs : TbsCertificate)
  | TaInfo (info : TrustAnchorInfo)
  deriving DecidableEq, Repr

/-- `rest` is the encoding of the optional fields. -/
structure TbsCertificateChangeInfo where
  subjectPublicKeyInfo : SubjectPublicKeyInfo
  rest : List UInt8
  deriving DecidableEq, Repr

structure TrustAnchorChangeInfo where
  pubKey : SubjectPublicKeyInfo
  keyId : Option (List UInt8)
  taTitle : Option String
  certPath : Option (List UInt8)
  exts : Option (List UInt8)
  deriving DecidableEq, Repr

inductive TrustAnchorChangeInfoChoice where
  | TbsCertChange (change : TbsCertificateChangeInfo)
  | TaChange (change : TrustAnchorChangeInfo)
  deriving DecidableEq, Repr

/-! ### Messages (RFC 5934) -/

/-- Which modules a message is for. -/
inductive TargetIdentifier where
  | HwModules (modules : List UInt8)
  | Communities (oids : List ObjectIdentifier)
  | AllModules
  | Uri (uri : String)
  | OtherName (name : List UInt8)
  deriving DecidableEq, Repr

structure TampMsgRef where
  target : TargetIdentifier
  seqNum : ℕ
  deriving DecidableEq, Repr

inductive TerseOrVerbose where
  | Terse
  | Verbose
  deriving DecidableEq, Repr

structure TampStatusQuery where
  terse : TerseOrVerbose
  query : TampMsgRef
  deriving DecidableEq, Repr

inductive TrustAnchorUpdate where
  | Add (ta : TrustAnchorChoice)
  | Remove (spki : SubjectPublicKeyInfo)
  | Change (change : TrustAnchorChangeInfoChoice)
  deriving DecidableEq, Repr

structure TampUpdate where
  msgRef : TampMsgRef
  updates : List TrustAnchorUpdate
  deriving DecidableEq, Repr

structure TampApexUpdate where
  msgRef : TampMsgRef
  clearTrustAnchors : Bool
  clearCommunities : Bool
  seqNumber : Option ℕ
  apexTa : TrustAnchorChoice
  deriving DecidableEq, Repr

structure TampCommunityUpdate where
  msgRef : TampMsgRef
  remove : Option (List ObjectIdentifier)
  add : Option (List ObjectIdentifier)
  deriving DecidableEq, Repr

structure SequenceNumberAdjust where
  msgRef : TampMsgRef
  deriving DecidableEq, Repr

/-- A message of the manager. -/
inductive OutboundMessage where
  | StatusQuery (m : TampStatusQuery)
  | Update (m : TampUpdate)
  | ApexUpdate (m : TampApexUpdate)
  | CommunityUpdate (m : TampCommunityUpdate)
  | SeqNumAdjust (m : SequenceNumberAdjust)
  deriving DecidableEq, Repr

structure TampStatusResponse where
  query : TampMsgRef
  deriving DecidableEq, Repr

/-- The status codes of a confirmation, in its terse or its verbose form. -/
inductive UpdateConfirm where
  | Terse (codes : List StatusCode)
  | Verbose (status : List StatusCode)
  deriving DecidableEq, Repr

structure TampUpdateConfirm where
  update : TampMsgRef
  confirm : UpdateConfirm
  deriving DecidableEq, Repr

/-- The status code of a confirmation, in its terse or its verbose form. -/
inductive SingleConfirm where
  | Terse (code : StatusCode)
  | Verbose (status : StatusCode)
  deriving DecidableEq, Repr

structure TampApexUpdateConfirm where
  apexReplace : TampMsgRef
  apexConfirm : SingleConfirm
  deriving DecidableEq, Repr

structure TampCommunityUpdateConfirm where
  update : TampMsgRef
  commConfirm : SingleConfirm
  deriving DecidableEq, Repr

structure SequenceNumberAdjustConfirm where
  adjust : TampMsgRef
  status : StatusCode
  deriving DecidableEq, Repr

structure TampError where
  msgType : ObjectIdentifier
  status : StatusCode
  msgRef : Option TampMsgRef
  deriving DecidableEq, Repr

end Ostrich.Tamp
