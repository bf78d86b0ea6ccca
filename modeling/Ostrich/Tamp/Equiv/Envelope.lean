import Ostrich.Tamp.Equiv.Cms
import Ostrich.Tamp.Instance

/-!
# What a verified envelope says

The signature of an envelope covers the digest of the content and the content type, as signed
attributes.  The verification compares the digest with the content, and does not look at the
content-type attribute.

* `envelope_made_iff`: a verified envelope is the one that its signer made exactly if the signed
  content-type attribute is the type of the envelope;
* `altered_type_verifies`: an envelope verifies under another type.
-/

namespace Ostrich.Tamp.Cms

open Crypto

/-! ### The property -/

section

variable (codec : Codec)

/-- Whatever verifies with the key are the attributes of one of these messages. -/
def Unforgeable (spki : List UInt8) (signed : Set (ObjectIdentifier × List UInt8)) : Prop :=
  ∀ algorithm signedAttrsDer signature,
    codec.verifyWithSpki spki algorithm signedAttrsDer signature false = .ok true →
      ∃ message ∈ signed, Signs codec message signedAttrsDer

/-- The type and the content are one of the signed messages, the one with this signature. -/
def Made (signed : Set (ObjectIdentifier × List UInt8)) (parsed : ParsedTampMessage) : Prop :=
  (parsed.contentType, parsed.content) ∈ signed ∧
    Signs codec (parsed.contentType, parsed.content) parsed.signedAttrsDer

/-- The content-type attribute is the type of the envelope. -/
def NamesType (parsed : ParsedTampMessage) : Prop :=
  ∃ attrs attr value, codec.attributesFromDer parsed.signedAttrsDer = .ok attrs ∧ attr ∈ attrs ∧
    attr.oid = idContentType ∧ codec.encodeOid parsed.contentType = .ok value ∧
    attr.values = [value]

end

/-! ### When the type is bound -/

section

variable {codec : Codec} {parsed : ParsedTampMessage} {spki : List UInt8}
  {message : ObjectIdentifier × List UInt8}

/-- The type of the envelope is the one that was signed exactly if the attribute names it. -/
theorem namesType_iff (hcodec : Lawful codec) (h : Signs codec message parsed.signedAttrsDer) :
    NamesType codec parsed ↔ parsed.contentType = message.1 := by
  obtain ⟨ctValue, mdValue, attrs, hct, -, hder, hmem⟩ := attributes_of_signs hcodec h
  constructor
  · intro hnames
    obtain ⟨attrs', attr, value, hattrs, hattr, hoid, hvalue, hvalues⟩ := hnames
    obtain rfl : attrs = attrs' := Except.ok.inj (hder.symm.trans hattrs)
    rcases (hmem attr).mp hattr with rfl | rfl
    · obtain rfl : ctValue = value := (List.cons.inj hvalues).1
      exact hcodec.encodeOid_inj hvalue hct
    · exact absurd (show idMessageDigest = idContentType from hoid) (by decide)
  · intro heq
    refine ⟨attrs, _, ctValue, hder, (hmem _).mpr (.inl rfl), rfl, ?_, rfl⟩
    rw [heq]
    exact hct

/-- **Verified envelopes**: if signatures cannot be forged, a verified envelope is the one that its
signer made exactly if the content-type attribute is the type of the envelope. -/
theorem envelope_made_iff (hcodec : Lawful codec) {signed : Set (ObjectIdentifier × List UInt8)}
    (hunforgeable : Unforgeable codec spki signed) {der : List UInt8}
    (_ : parse codec der = .ok parsed) (hverify : verify codec parsed spki = .ok ()) :
    Made codec signed parsed ↔ NamesType codec parsed := by
  obtain ⟨algorithm, hsignature⟩ := (verify_eq_ok hverify).2
  obtain ⟨message, hmem, hsigns⟩ := hunforgeable algorithm _ _ hsignature
  constructor
  · intro hmade
    exact (namesType_iff hcodec hmade.2).mpr rfl
  · intro htype
    -- the message that was signed has this content, and by its attribute this type
    have hcontent := content_of_verify hcodec hverify hsigns
    have heq : (parsed.contentType, parsed.content) = message :=
      Prod.ext ((namesType_iff hcodec hsigns).mp htype) hcontent
    unfold Made
    rw [heq]
    exact ⟨hmem, hsigns⟩

end

/-! ### An instance -/

/-- The key of a target. -/
def targetKey : SubjectPublicKeyInfo where
  algorithm := Der.tlv 0x30 [0x06, 0x03, 0x2B, 0x65, 0x70]
  subjectPublicKey :=
    [0xEA, 0x4A, 0x6C, 0x63, 0xE2, 0x9C, 0x52, 0x0A, 0xBE, 0xF5, 0x50, 0x7B, 0x13, 0x2E, 0xC5, 0xF9,
      0x95, 0x47, 0x76, 0xAE, 0xBE, 0xBE, 0x7B, 0x92, 0x42, 0x1E, 0xEA, 0x69, 0x14, 0x46, 0xD2,
      0x2C]

/-- An error of the target, without a reference to a message. -/
def errorMessage : TampError := ⟨Oids.idCtTampUpdate, .Other, none⟩

/-- Its encoding. -/
def errorContent : List UInt8 :=
  [0x30, 0x0F, 0x06, 0x0A, 0x60, 0x86, 0x48, 0x01, 0x65, 0x02, 0x01, 0x02, 0x4D, 0x03, 0x0A, 0x01,
    0x7F]

/-- The digest of the encoding. -/
def errorDigest : List UInt8 :=
  [0x9B, 0x2E, 0xD0, 0xC7, 0xB3, 0xF8, 0xB2, 0x72, 0x10, 0x7E, 0xE0, 0x27, 0xDC, 0x8E, 0xA9, 0x99,
    0x4D, 0x4B, 0x51, 0xE7, 0x5C, 0x25, 0x27, 0x61, 0x0B, 0xEC, 0xCF, 0x0A, 0xC8, 0x0A, 0x7C, 0xB8]

/-- What is signed for an error with this digest. -/
def attrsOf (digest : List UInt8) : List Attribute :=
  [attributeOf idContentType (Der.tlv 0x06
      [0x60, 0x86, 0x48, 0x01, 0x65, 0x02, 0x01, 0x02, 0x4D, 0x09]),
    attributeOf idMessageDigest (Der.tlv 0x04 digest)]

/-- The encoding of what is signed for an error. -/
def attrsDerOf (digest : List UInt8) : List UInt8 :=
  Der.tlv 0x31 (Der.tlv 0x30 (
      Der.tlv 0x06 [0x2A, 0x86, 0x48, 0x86, 0xF7, 0x0D, 0x01, 0x09, 0x03] ++
      Der.tlv 0x31 (Der.tlv 0x06 [0x60, 0x86, 0x48, 0x01, 0x65, 0x02, 0x01, 0x02, 0x4D, 0x09])) ++
    Der.tlv 0x30 (Der.tlv 0x06 [0x2A, 0x86, 0x48, 0x86, 0xF7, 0x0D, 0x01, 0x09, 0x04] ++
      Der.tlv 0x31 (Der.tlv 0x04 digest)))

/-- The signed data of an error, under any type. -/
def signedOf (econtentType : ObjectIdentifier) (content digest signature : List UInt8) :
    SignedData where
  econtentType := econtentType
  econtent := some (Der.tlv 0x04 content)
  signerInfos := [⟨.SubjectKeyIdentifier [0x09], some (attrsOf digest), "1.3.101.112", signature,
    none⟩]

/-- The encoding of an envelope. -/
def envelopeOf (signed : SignedData) : List UInt8 :=
  (do
    let content ← signedDataDer signed
    contentInfoDer ⟨Oids.idSignedData, content⟩).toOption.getD []

/-- What the target signed. -/
def errorAttrsDer : List UInt8 := attrsDerOf errorDigest

/-- Its signature with the key of the target. -/
def errorSignature : List UInt8 :=
  [0x32, 0x21, 0xA4, 0xB4, 0x2A, 0x1F, 0xB0, 0xB1, 0x78, 0x1F, 0xFF, 0x24, 0x92, 0x0E, 0x1A, 0x49,
    0x6D, 0x71, 0x30, 0xC7, 0x8F, 0xA7, 0x4A, 0x78, 0x15, 0x77, 0xD7, 0x40, 0x92, 0x87, 0x76, 0x30,
    0x16, 0xD0, 0xFB, 0xBB, 0x97, 0x8C, 0x3B, 0x66, 0x02, 0x1D, 0x3F, 0x69, 0x00, 0xE2, 0xA1, 0x44,
    0x5D, 0x80, 0xEB, 0x85, 0x83, 0x2F, 0xDB, 0x5A, 0xCC, 0x8A, 0x2C, 0xF1, 0x75, 0x41, 0xD4, 0x0A]

/-- The envelope of the error, under any type. -/
def errorSigned (econtentType : ObjectIdentifier) : SignedData :=
  signedOf econtentType errorContent errorDigest errorSignature

/-- The envelope, and the same with another type. -/
def errorKnown : Known where
  keys := [targetKey]
  signed := [errorSigned Oids.idCtTampError, errorSigned Oids.idCtTampUpdateConfirm]
  errors := [errorMessage]
  signatures := [(spkiDer targetKey, errorAttrsDer, errorSignature)]

/-- A hash without collisions that has this digest. -/
def injectiveHash (bytes : List UInt8) : List UInt8 :=
  if bytes = errorContent then errorDigest
  else if bytes = errorDigest then errorContent
  else bytes

/-- Octets of the lengths that the crate `der` has. -/
def boundedOctets (bytes : List UInt8) : Except String Any :=
  if bytes.length < 268435456 then .ok (Der.tlv 0x04 bytes) else .error "length overflow"

/-- The encoding, of the known values only. -/
def restricted {α : Type} [DecidableEq α] (encode : α → Except String (List UInt8))
    (known : List α) (a : α) : Except String (List UInt8) :=
  if a ∈ known then encode a else .error "unknown"

def errorCodec : Codec :=
  { codec errorKnown with
    encodeOctets := boundedOctets, sha256 := injectiveHash
    attributesToDer := restricted setDer [attrsOf errorDigest]
    encodeSignedData := restricted signedDataDer errorKnown.signed
    contentInfoToDer := restricted contentInfoDer (contentInfos errorKnown) }

/-- The encoding of the envelope. -/
def errorEnvelope (econtentType : ObjectIdentifier) : List UInt8 :=
  envelopeOf (errorSigned econtentType)

/-- What is parsed of the envelope. -/
def errorParsed (econtentType : ObjectIdentifier) : ParsedTampMessage where
  contentType := econtentType
  content := errorContent
  signerSki := [0x09]
  signedAttrsDer := errorAttrsDer
  signature := errorSignature
  signatureAlgOid := "1.3.101.112"

/-- The known values have different encodings. -/
def Distinct {α : Type} [DecidableEq α] (encode : α → Except String (List UInt8))
    (known : List α) : Bool :=
  known.all fun a => known.all fun b => (encode a).toOption ≠ (encode b).toOption || a = b

/-- The encodings of the known object identifiers differ. -/
def distinctOids : Bool :=
  oids.all fun a => oids.all fun b => Der.tlv 0x06 a.2 ≠ Der.tlv 0x06 b.2 || a.1 = b.1

-- One evaluation for all the constants of the instance.
theorem check_error :
    (errorDer errorMessage = .ok errorContent ∧ Sha256.digest errorContent = errorDigest) ∧
    (distinctOids = true ∧ Distinct setDer (attributeSets errorKnown) = true ∧
      Distinct contentInfoDer (contentInfos errorKnown) = true ∧
      Distinct signedDataDer errorKnown.signed = true ∧
      ∀ a ∈ [attrsOf errorDigest], a ∈ attributeSets errorKnown) ∧
    Signs errorCodec (Oids.idCtTampError, errorContent) errorAttrsDer ∧
    (parse errorCodec (errorEnvelope Oids.idCtTampError) =
        .ok (errorParsed Oids.idCtTampError) ∧
      verify errorCodec (errorParsed Oids.idCtTampError) (spkiDer targetKey) = .ok ()) ∧
    (parse errorCodec (errorEnvelope Oids.idCtTampUpdateConfirm) =
        .ok (errorParsed Oids.idCtTampUpdateConfirm) ∧
      verify errorCodec (errorParsed Oids.idCtTampUpdateConfirm) (spkiDer targetKey) =
        .ok ()) ∧
    errorCodec.verifyWithSpki (spkiDer targetKey) .Ed25519 errorAttrsDer errorSignature false =
      .ok true ∧
    envelope errorCodec [0x09] Oids.idCtTampError errorContent .Ed25519 [] errorSignature =
      .ok (errorEnvelope Oids.idCtTampError) := by
  unfold Signs
  decide +kernel

theorem signs_error : Signs errorCodec (Oids.idCtTampError, errorContent) errorAttrsDer :=
  check_error.2.2.1

theorem parse_error : parse errorCodec (errorEnvelope Oids.idCtTampError) =
    .ok (errorParsed Oids.idCtTampError) :=
  check_error.2.2.2.1.1

theorem verify_error : verify errorCodec (errorParsed Oids.idCtTampError) (spkiDer targetKey) =
    .ok () :=
  check_error.2.2.2.1.2

theorem injectiveHash_injective : Function.Injective injectiveHash := by
  intro a b h
  unfold injectiveHash at h
  grind

theorem octets_boundedOctets {bytes : List UInt8} {any : Any}
    (h : boundedOctets bytes = .ok any) : octets any = .ok bytes := by
  unfold boundedOctets at h
  split_ifs at h with hlt
  obtain rfl := Except.ok.inj h
  have hread := Der.readTlv_tlv 0x04 (lt_trans hlt (by decide)) []
  rw [List.append_nil] at hread
  unfold octets
  rw [hread]
  rfl

theorem oidDer_injective {oid oid' : ObjectIdentifier} {any : Any} (h : oidDer oid = .ok any)
    (h' : oidDer oid' = .ok any) : oid = oid' := by
  have hfind {oid : ObjectIdentifier} (h : oidDer oid = .ok any) :
      ∃ found ∈ oids, found.1 = oid ∧ Der.tlv 0x06 found.2 = any := by
    unfold oidDer at h
    cases hfound : oids.find? (·.1 = oid) with
    | none =>
      rw [hfound] at h
      cases h
    | some found =>
      rw [hfound] at h
      exact ⟨found, List.mem_of_find?_eq_some hfound, by simpa using List.find?_some hfound,
        Except.ok.inj h⟩
  have hinj := check_error.2.1.1
  obtain ⟨found, hfound, hoid, hder⟩ := hfind h
  obtain ⟨found', hfound', hoid', hder'⟩ := hfind h'
  have hpair := List.all_eq_true.mp (List.all_eq_true.mp hinj found hfound) found' hfound'
  simpa [hder, hder', hoid, hoid'] using hpair

/-- Insertion adds the attribute. -/
theorem mem_insertSorted {attrs : List Attribute} {attr : Attribute} :
    ∀ {attrs' : List Attribute}, insertSorted attrs attr = .ok attrs' →
      ∀ a, a ∈ attrs' ↔ a ∈ attrs ∨ a = attr := by
  induction attrs with
  | nil =>
    intro attrs' h a
    obtain rfl := Except.ok.inj h
    simp
  | cons first rest ih =>
    intro attrs' h a
    unfold insertSorted at h
    cases hder : attributeDer attr with
    | error e =>
      rw [hder] at h
      cases h
    | ok der =>
      cases hfirst : attributeDer first with
      | error e =>
        rw [hder, hfirst] at h
        cases h
      | ok firstDer =>
        rw [hder, hfirst] at h
        dsimp only [Bind.bind, Except.bind, Pure.pure, Except.pure] at h
        split_ifs at h
        · obtain rfl := Except.ok.inj h
          simp [or_comm]
        · cases hrest : insertSorted rest attr with
          | error e =>
            rw [hrest] at h
            cases h
          | ok rest' =>
            rw [hrest] at h
            obtain rfl := Except.ok.inj h
            rw [List.mem_cons, ih hrest, List.mem_cons, or_assoc]

/-- A known value is read back. -/
theorem decode_of_restricted {α : Type} [DecidableEq α]
    {encode : α → Except String (List UInt8)} {known known' : List α}
    (hdistinct : Distinct encode known' = true) (hsub : ∀ a ∈ known, a ∈ known') {a : α}
    {der : List UInt8} (h : restricted encode known a = .ok der) :
    decode encode known' der = .ok a := by
  unfold restricted at h
  split_ifs at h with hmem
  have hencoded : (encode a).toOption = some der := by
    rw [h]
    rfl
  unfold decode
  cases hfound : known'.find? fun a => (encode a).toOption = some der with
  | none =>
    have hno := List.find?_eq_none.mp hfound a (hsub a hmem)
    exact absurd (decide_eq_true hencoded) hno
  | some b =>
    have hb := List.find?_some hfound
    rw [decide_eq_true_eq] at hb
    have hpair := List.all_eq_true.mp (List.all_eq_true.mp hdistinct b
      (List.mem_of_find?_eq_some hfound)) a (hsub a hmem)
    rw [hb, hencoded] at hpair
    have heq : b = a := by simpa using hpair
    rw [heq]

theorem lawful_errorCodec : Lawful errorCodec where
  decodeOctets := octets_boundedOctets
  encodeOid_inj := oidDer_injective
  mem_insert := mem_insertSorted
  attributesFromDer := by
    obtain ⟨-, hdistinct, -, -, hsub⟩ := check_error.2.1
    exact decode_of_restricted hdistinct hsub
  sha256 := injectiveHash_injective

theorem unforgeable_error :
    Unforgeable errorCodec (spkiDer targetKey) {(Oids.idCtTampError, errorContent)} := by
  intro algorithm signedAttrsDer signature h
  have hmem : (spkiDer targetKey, signedAttrsDer, signature) ∈ errorKnown.signatures :=
    List.contains_iff_mem.mp (Except.ok.inj h)
  have heq := List.mem_singleton.mp hmem
  obtain ⟨hder, -⟩ := Prod.mk.inj (Prod.mk.inj heq).2
  refine ⟨_, rfl, ?_⟩
  rw [hder]
  exact signs_error

/-- The type of the envelope is not signed for: it verifies under another one. -/
theorem altered_type_verifies :
    Lawful errorCodec ∧
      Unforgeable errorCodec (spkiDer targetKey) {(Oids.idCtTampError, errorContent)} ∧
      parse errorCodec (errorEnvelope Oids.idCtTampUpdateConfirm) =
        .ok (errorParsed Oids.idCtTampUpdateConfirm) ∧
      verify errorCodec (errorParsed Oids.idCtTampUpdateConfirm) (spkiDer targetKey) = .ok () ∧
      (Oids.idCtTampUpdateConfirm, errorContent) ∉
        ({(Oids.idCtTampError, errorContent)} : Set (ObjectIdentifier × List UInt8)) := by
  obtain ⟨-, -, -, -, ⟨hparse, hverify⟩, -⟩ := check_error
  refine ⟨lawful_errorCodec, unforgeable_error, hparse, hverify, ?_⟩
  intro hmem
  have htype := (Prod.mk.inj (Set.mem_singleton_iff.mp hmem)).1
  exact absurd htype (by decide)

/-- The envelope as it was made. -/
theorem error_made :
    Made errorCodec {(Oids.idCtTampError, errorContent)} (errorParsed Oids.idCtTampError) :=
  (envelope_made_iff lawful_errorCodec unforgeable_error parse_error verify_error).mpr
    ((namesType_iff lawful_errorCodec signs_error).mpr rfl)

end Ostrich.Tamp.Cms
