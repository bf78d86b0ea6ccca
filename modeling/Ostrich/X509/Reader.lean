import Ostrich.X509.Csr

/-!
# DER of requests

`certificationRequest` is the DER of a PKCS#10 request with an extensionRequest attribute that holds
one subjectAltName extension (RFC 2986, RFC 2985 §5.4.2, RFC 5280 §4.2.1.6).

`derReader` is an `Asn1Lib` that reads DER element by element, for the inputs that it knows: the
fields of a PKCS#10 request, names, and the general names of a subjectAltName extension.  It stands
in for the decoders of other crates where the model is run on a concrete request.
-/

namespace Ostrich.X509

open Der

/-- id-ce-subjectAltName, 2.5.29.17. -/
def subjectAltNameOid : List UInt8 := [0x55, 0x1d, 0x11]

/-- pkcs-9-at-extensionRequest, 1.2.840.113549.1.9.14. -/
def extensionRequestOidDer : List UInt8 := [0x2a, 0x86, 0x48, 0x86, 0xf7, 0x0d, 0x01, 0x09, 0x0e]

/-- The content of a GeneralNames: dNSName is `[2]`, iPAddress is `[7]`. -/
def generalNames (names : List (UInt8 × List UInt8)) : List UInt8 :=
  names.flatMap fun (tag, content) => tlv tag content

/-- The subjectAltName extension. -/
def sanExtension (names : List (UInt8 × List UInt8)) : List UInt8 :=
  tlv 0x30 (tlv 0x06 subjectAltNameOid ++ tlv 0x04 (tlv 0x30 (generalNames names)))

/-- The values of the extensionRequest attribute. -/
def extensionRequest (names : List (UInt8 × List UInt8)) : List UInt8 :=
  tlv 0x31 (tlv 0x30 (sanExtension names))

/-- A name of one common name attribute. -/
def commonNameDer (cn : List UInt8) : List UInt8 :=
  tlv 0x30 (tlv 0x31 (tlv 0x30 (tlv 0x06 [0x55, 0x04, 0x03] ++ tlv 0x0c cn)))

/-- A request: subject, SubjectPublicKeyInfo, names, signature algorithm OID, signature. -/
def certificationRequest (subject spki : List UInt8) (names : List (UInt8 × List UInt8))
    (algorithm signature : List UInt8) : List UInt8 :=
  tlv 0x30 (tlv 0x30 (tlv 0x02 [0] ++ subject ++ spki
      ++ tlv 0xA0 (tlv 0x30 (tlv 0x06 extensionRequestOidDer ++ extensionRequest names)))
    ++ tlv 0x30 (tlv 0x06 algorithm) ++ tlv 0x03 (0 :: signature))

end Ostrich.X509

namespace Ostrich.X509.Reader

open Der Text

/-- Read an element with this tag: what follows it and its content. -/
def element (tag : UInt8) (der : List UInt8) : Except String (List UInt8 × List UInt8) :=
  match readTlv der with
  | some (t, content, rest) => if t = tag then .ok (rest, content) else .error "unexpected tag"
  | none => .error "truncated"

theorem length_of_readTlv {der content rest : List UInt8} {tag : UInt8}
    (h : readTlv der = some (tag, content, rest)) : rest.length < der.length := by
  cases der with
  | nil => cases h
  | cons t tail =>
    rw [readTlv] at h
    obtain ⟨⟨len, after⟩, hlen, h⟩ := Option.bind_eq_some_iff.mp h
    dsimp only at h
    split_ifs at h
    obtain ⟨-, h⟩ := Prod.mk.inj (Option.some.inj h)
    obtain ⟨-, rfl⟩ := Prod.mk.inj h
    have hafter : after.length ≤ tail.length := by
      cases tail with
      | nil => cases hlen
      | cons o tail =>
        rw [readLen] at hlen
        split_ifs at hlen
        · obtain ⟨-, rfl⟩ := Prod.mk.inj (Option.some.inj hlen)
          exact Nat.le_succ _
        · dsimp only at hlen
          split_ifs at hlen
          obtain ⟨-, rfl⟩ := Prod.mk.inj (Option.some.inj hlen)
          rw [List.length_drop, List.length_cons]
          omega
    rw [List.length_drop, List.length_cons]
    omega

theorem length_of_element {tag : UInt8} {der rest content : List UInt8}
    (h : element tag der = .ok (rest, content)) : rest.length < der.length := by
  unfold element at h
  split at h
  · rename_i hread
    split_ifs at h
    obtain ⟨rfl, -⟩ := Prod.mk.inj (Except.ok.inj h)
    exact length_of_readTlv hread
  · cases h

/-- The elements one after another; `fuel` bounds their number. -/
def elements : ℕ → List UInt8 → Except String (List (UInt8 × List UInt8))
  | _, [] => .ok []
  | 0, _ => .error "truncated"
  | fuel + 1, der =>
    match readTlv der with
    | some (tag, content, rest) => do
      let more ← elements fuel rest
      return (tag, content) :: more
    | none => .error "truncated"

/-- The dotted text of an OID: the arcs after the first two, `arc` being read. -/
def oidArcs : List UInt8 → ℕ → List ℕ
  | [], _ => []
  | b :: rest, arc =>
    let arc := arc * 128 + b.toNat % 128
    if b.toNat < 128 then arc :: oidArcs rest 0 else oidArcs rest arc

/-- The dotted text of an OID. -/
def oidText (content : List UInt8) : String :=
  match oidArcs content 0 with
  | [] => ""
  | first :: rest =>
    let top := if first < 80 then [first / 40, first % 40] else [2, first - 80]
    String.intercalate "." ((top ++ rest).map toString)

/-- The ASCII text of a string element. -/
def asciiText (content : List UInt8) : Except String String :=
  if content.all fun b => b.toNat < 128 then
    .ok (String.ofList (content.map fun b => Char.ofNat b.toNat))
  else .error "not ASCII"

def generalName (der : List UInt8) : Except String (List UInt8 × GeneralName) :=
  match readTlv der with
  | none => .error "truncated"
  | some (tag, content, rest) =>
    if tag = 0x82 then (asciiText content).map fun text => (rest, .DNSName text)
    else if tag = 0x87 then .ok (rest, .IPAddress content)
    else .ok (rest, .Invalid (toString tag.toNat) content)

/-- An attribute of a name. -/
def dnAttribute (content : List UInt8) : Except String DnAttribute := do
  let (rest, oid) ← element 0x06 content
  match readTlv rest with
  | some (_, value, _) => return ⟨oidText oid, asciiText value⟩
  | none => .error "truncated"

/-- A name. -/
def name (der : List UInt8) : Except String X509Name := do
  let (_, content) ← element 0x30 der
  let sets ← elements content.length content
  let rdns ← sets.mapM fun (_, set) => do
    let attributes ← elements set.length set
    attributes.mapM fun (_, attr) => dnAttribute attr
  let text := rdns.flatten.map fun a => a.oid ++ "=" ++ (a.value.toOption.getD "")
  return ⟨String.intercalate ", " text, rdns⟩

/-- The parts of a PKCS#10 request. -/
structure Parts where
  info : List UInt8
  subject : List UInt8
  spki : List UInt8
  attributes : List (String × List UInt8)
  algorithm : String
  signature : List UInt8

/-- An attribute of a request: its OID and what follows it. -/
def csrAttribute (content : List UInt8) : Except String (String × List UInt8) := do
  let (rest, oid) ← element 0x06 content
  return (oidText oid, rest)

/-- What an element is, with what follows it. -/
def rawElement (der : List UInt8) : Except String (List UInt8 × List UInt8) :=
  match readTlv der with
  | some (_, _, rest) => .ok (rest, der.take (der.length - rest.length))
  | none => .error "truncated"

/-- Read a PKCS#10 request. -/
def parts (der : List UInt8) : Except String Parts := do
  let (_, outer) ← element 0x30 der
  let (rest, info) ← rawElement outer
  let (_, infoContent) ← element 0x30 info
  let (infoRest, _) ← element 0x02 infoContent
  let (infoRest, subject) ← rawElement infoRest
  let (infoRest, spki) ← rawElement infoRest
  let (_, attributes) ← element 0xA0 infoRest
  let attributes ← elements attributes.length attributes
  let attributes ← attributes.mapM fun (_, content) => csrAttribute content
  let (rest, algorithm) ← element 0x30 rest
  let (_, oid) ← element 0x06 algorithm
  let (_, bits) ← element 0x03 rest
  return ⟨info, subject, spki, attributes, oidText oid, bits.drop 1⟩

/-- Decoders that read DER element by element. -/
def derReader : Asn1Lib where
  requestFromDer der := do
    let p ← parts der
    let subject ← name p.subject
    return ⟨subject, p.spki, p.signature, p.algorithm, p.attributes, p.info⟩
  certReqFromDer der := do
    let p ← parts der
    let subject ← name p.subject
    return ⟨⟨subject.rdns.isEmpty, .ok p.subject, subject.display⟩, .ok p.spki, p.algorithm,
      some p.signature, p.attributes.map fun (oid, values) => (oid, .ok values)⟩
  nameFromDer := name
  setFromDer := element 0x31
  sequenceFromDer := element 0x30
  oidFromDer der := (element 0x06 der).map fun (rest, content) => (rest, oidText content)
  booleanFromDer der := (element 0x01 der).map fun (rest, content) => (rest, content ≠ [0])
  octetStringFromDer := element 0x04
  generalNameFromDer := generalName
  sequence_rest _ _ _ := length_of_element
  generalName_rest := by
    intro der rest gn h
    unfold generalName at h
    split at h
    · cases h
    · rename_i content rest' hread
      have hlt := length_of_readTlv hread
      split_ifs at h
      · cases htext : asciiText content with
        | error e => rw [htext] at h; cases h
        | ok text =>
          rw [htext] at h
          obtain ⟨rfl, -⟩ := Prod.mk.inj (Except.ok.inj h)
          exact hlt
      · obtain ⟨rfl, -⟩ := Prod.mk.inj (Except.ok.inj h)
        exact hlt
      · obtain ⟨rfl, -⟩ := Prod.mk.inj (Except.ok.inj h)
        exact hlt

end Ostrich.X509.Reader
