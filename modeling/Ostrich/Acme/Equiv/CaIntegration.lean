import Ostrich.Acme.CaIntegration
import Ostrich.Acme.Equiv.Finalize

/-!
# The names of an issuance request

`validateCsrIdentifiers` compares the SANs of the CSR with the identifiers of the order, so every
SAN of the request is an identifier and every identifier is among the SANs.  The common name takes
another path: it is derived from the SANs only for an empty subject, and otherwise is the subject's
own, which nothing compares with the order.  `namesAuthorized_iff` says when it is an identifier.
-/

namespace Ostrich.Acme

open Text X509

theorem badCsr_eq_ok {α : Type} {what : String} {x : Except String α} {a : α}
    (h : badCsr what x = .ok a) : x = .ok a := by
  cases x with
  | ok b => rw [Except.ok.inj h]
  | error e => cases h

theorem parseCsrFor_eq_ok {lib : Asn1Lib} {what : String} {der : List UInt8} {csr : ParsedCsr}
    (h : parseCsrFor lib what der = .ok csr) : parseCsr lib der = .ok csr := by
  unfold parseCsrFor at h
  split at h
  · rw [← Outcome.ok.inj h]
    assumption
  · cases h
  · cases h
  · cases h

/-- What a request is made of. -/
structure RequestOf (lib : Asn1Lib) (orderId : Uuid) (csrDer : List UInt8) (csr : CertReq)
    (parsedCsr : ParsedCsr) (request : IssueCertificateRequest) : Prop where
  certReq : lib.certReqFromDer csrDer = .ok csr
  parsed : parseCsr lib csrDer = .ok parsedCsr
  sans : request.subjectAltNames = convertSansToProto parsedCsr.subjectAlternativeNames
  subject : resolveProtoSubject lib csr.subject parsedCsr.subjectAlternativeNames
    = .ok request.subject
  csrDer : request.csrDer = csrDer
  requestId : request.requestId = orderId.toString

/-- A request was made from a CSR that both parsers accept. -/
theorem issueRequest_eq_ok {lib : Asn1Lib} {orderId : Uuid} {csrDer : List UInt8}
    {account : String} {request : IssueCertificateRequest}
    (h : issueRequest lib orderId csrDer account = .ok request) :
    ∃ csr parsedCsr, RequestOf lib orderId csrDer csr parsedCsr request := by
  obtain ⟨csr, hcsr, h⟩ := Outcome.eq_ok_of_bind h
  obtain ⟨parsedCsr, hparsed, h⟩ := Outcome.eq_ok_of_bind h
  obtain ⟨subject, hsubject, h⟩ := Outcome.eq_ok_of_bind h
  obtain ⟨publicKey, -, h⟩ := Outcome.eq_ok_of_bind h
  obtain rfl := Outcome.ok.inj h
  exact ⟨csr, parsedCsr, badCsr_eq_ok (ofExcept_eq_ok hcsr), parseCsrFor_eq_ok hparsed, rfl,
    ofExcept_eq_ok hsubject, rfl, rfl⟩

/-! ### Subject alternative names -/

/-- The two are equal up to the case of ASCII letters. -/
def SameName (a b : String) : Prop := toAsciiLowercase a = toAsciiLowercase b

/-- The name is that of the identifier. -/
def ProtoSubjectAltName.Names : ProtoSubjectAltName → Identifier → Prop
  | .DnsName dns, id => id.idType = "dns" ∧ SameName dns id.value
  | .IpAddress ip, id => id.idType = "ip" ∧ SameName ip id.value
  | _, _ => False

theorem protoSan_dns (dns : String) : protoSan ("DNS:" ++ dns) = some (.DnsName dns) := by
  rw [protoSan, stripPrefix_append]

theorem protoSan_ip (ip : String) : protoSan ("IP:" ++ ip) = some (.IpAddress ip) := by
  rw [protoSan, stripPrefix_eq_none (by decide) (by decide) (by decide),
    stripPrefix_eq_none (by decide) (by decide) (by decide),
    stripPrefix_eq_none (by decide) (by decide) (by decide), stripPrefix_append]

/-- A SAN that asks for an identifier of an order is passed on as its name. -/
theorem names_of_requests {san : String} {id : Identifier} (h : Requests san id)
    (htype : id.idType = "dns" ∨ id.idType = "ip") : ∃ p, protoSan san = some p ∧ p.Names id := by
  rcases requestedIdentifier_cases h with ⟨dns, rfl⟩ | ⟨ip, rfl⟩
  · refine ⟨_, protoSan_dns dns, ?_⟩
    rw [Requests, requestedIdentifier_dns] at h
    rcases htype with htype | htype <;> rw [htype] at h
    · exact ⟨htype, (Prod.mk.inj (Except.ok.inj h)).2⟩
    · exact absurd (Prod.mk.inj (Except.ok.inj h)).1 (by decide)
  · refine ⟨_, protoSan_ip ip, ?_⟩
    rw [Requests, requestedIdentifier_ip] at h
    rcases htype with htype | htype <;> rw [htype] at h
    · exact absurd (Prod.mk.inj (Except.ok.inj h)).1 (by decide)
    · exact ⟨htype, congrArg toAsciiLowercase (Prod.mk.inj (Except.ok.inj h)).2⟩

/-! ### The common name -/

/-- The value of the last common name attribute. -/
def lastCommonName (name : X509Name) : Option String :=
  ((name.rdns.flatten.filter fun a => a.oid = "2.5.4.3").getLast?).bind fun a => a.value.toOption

theorem commonName_set (dn : DistinguishedName) (oid value : String) :
    (dn.set oid value).commonName = if oid = "2.5.4.3" then some value else dn.commonName := by
  unfold DistinguishedName.set
  split <;> simp_all

/-- Of several common names the last stays. -/
theorem commonName_of_loop : ∀ {attrs : List DnAttribute} {dn dn' : DistinguishedName},
    parseDistinguishedName.loop attrs dn = .ok dn' →
    dn'.commonName = match (attrs.filter fun a => a.oid = "2.5.4.3").getLast? with
      | some a => a.value.toOption
      | none => dn.commonName
  | [], dn, dn', h => by
    rw [← Except.ok.inj h]
    rfl
  | attr :: attrs, dn, dn', h => by
    obtain ⟨value, hvalue, h⟩ := bind_eq_ok h
    have hok : attr.value = .ok value := by
      cases hattr : attr.value with
      | ok v => rw [hattr] at hvalue; rw [Except.ok.inj hvalue]
      | error e => rw [hattr] at hvalue; cases hvalue
    rw [commonName_of_loop h, commonName_set, List.filter_cons]
    by_cases hoid : attr.oid = "2.5.4.3"
    · rw [if_pos hoid, if_pos (by simpa using hoid), List.getLast?_cons]
      cases (attrs.filter fun a => a.oid = "2.5.4.3").getLast? with
      | none =>
        show some value = attr.value.toOption
        rw [hok]
        rfl
      | some a => rfl
    · rw [if_neg hoid, if_neg (by simpa using hoid)]

theorem commonName_of_parse {name : X509Name} {dn : DistinguishedName}
    (h : parseDistinguishedName name = .ok dn) : dn.commonName = lastCommonName name := by
  rw [commonName_of_loop h, lastCommonName]
  cases (name.rdns.flatten.filter fun a => a.oid = "2.5.4.3").getLast? <;> rfl

/-- The decoders agree that an empty name has no attributes. -/
def EmptyNames (lib : Asn1Lib) : Prop :=
  ∀ csrDer csr der name, lib.certReqFromDer csrDer = .ok csr → csr.subject.isEmpty = true →
    csr.subject.der = .ok der → lib.nameFromDer der = .ok name → name.rdns = []

/-- The subject is empty, or its common name, if it has one, is that of an identifier. -/
def SubjectAuthorized (lib : Asn1Lib) (ids : List Identifier) (subject : CertName) : Prop :=
  subject.isEmpty = true ∨ ∀ der name cn, subject.der = .ok der → lib.nameFromDer der = .ok name →
    lastCommonName name = some cn → ∃ id ∈ ids, SameName cn id.value

/-- The names of the request are the identifiers. -/
structure NamesAuthorized (ids : List Identifier) (request : IssueCertificateRequest) : Prop where
  sans : ∀ san ∈ request.subjectAltNames, ∃ id ∈ ids, san.Names id
  commonName : ∀ cn, request.subject.commonName = some cn → ∃ id ∈ ids, SameName cn id.value
  identifiers : ∀ id ∈ ids, ∃ san ∈ request.subjectAltNames, san.Names id

theorem convertSubjectToProto_eq_ok {lib : Asn1Lib} {subject : CertName}
    {proto : ProtoDistinguishedName} (h : convertSubjectToProto lib subject = .ok proto) :
    ∃ der name, subject.der = .ok der ∧ lib.nameFromDer der = .ok name ∧
      proto.commonName = lastCommonName name := by
  obtain ⟨der, hder, h⟩ := bind_eq_ok h
  obtain ⟨name, hname, h⟩ := bind_eq_ok h
  obtain ⟨dn, hdn, h⟩ := bind_eq_ok h
  obtain rfl := Except.ok.inj h
  refine ⟨der, name, badCsr_eq_ok hder, badCsr_eq_ok hname, ?_⟩
  have hparse : parseDistinguishedName name = .ok dn := by
    cases hresult : parseDistinguishedName name with
    | ok dn' => rw [hresult] at hdn; rw [Except.ok.inj (badCsr_eq_ok hdn)]
    | error e => rw [hresult] at hdn; cases badCsr_eq_ok hdn
  exact commonName_of_parse hparse

/-- A derived common name is a DNS name among the SANs. -/
theorem mem_of_derivedCnFromSans {sans : List String} {cn : String}
    (h : derivedCnFromSans sans = some cn) : "DNS:" ++ cn ∈ sans := by
  obtain ⟨san, hsan, hstrip⟩ := List.mem_filterMap.mp (List.mem_of_find?_eq_some h)
  rwa [← stripPrefix_eq_some.mp hstrip]

section

variable {lib : Asn1Lib} {orderId : Uuid} {csrDer : List UInt8} {csr : CertReq}
variable {parsedCsr : ParsedCsr} {request : IssueCertificateRequest} {ids : List Identifier}

/-- The common name of a request: derived from the SANs, or that of the subject. -/
theorem commonName_cases (hempty : EmptyNames lib)
    (hreq : RequestOf lib orderId csrDer csr parsedCsr request) :
    (csr.subject.isEmpty = true ∧ ∀ cn, request.subject.commonName = some cn →
      "DNS:" ++ cn ∈ parsedCsr.subjectAlternativeNames) ∨
    (csr.subject.isEmpty = false ∧ ∃ der name, csr.subject.der = .ok der ∧
      lib.nameFromDer der = .ok name ∧ request.subject.commonName = lastCommonName name) := by
  have hsubject := hreq.subject
  unfold resolveProtoSubject at hsubject
  split at hsubject
  · rename_i cn hisEmpty hderived
    refine .inl ⟨hisEmpty, fun cn' hcn' => ?_⟩
    rw [← Except.ok.inj hsubject] at hcn'
    obtain rfl := Option.some.inj hcn'
    exact mem_of_derivedCnFromSans hderived
  · obtain ⟨der, name, hder, hname, hcn⟩ := convertSubjectToProto_eq_ok hsubject
    cases hisEmpty : csr.subject.isEmpty with
    | true =>
      -- an empty name has no common name to forward
      have hrdns := hempty csrDer csr der name hreq.certReq hisEmpty hder hname
      refine .inl ⟨rfl, fun cn hcn' => ?_⟩
      rw [hcn, lastCommonName, hrdns] at hcn'
      cases hcn'
    | false => exact .inr ⟨rfl, der, name, hder, hname, hcn⟩

/-- **When the names of a request are the identifiers of the order.** -/
theorem namesAuthorized_iff (hempty : EmptyNames lib)
    (hreq : RequestOf lib orderId csrDer csr parsedCsr request)
    (htypes : ∀ id ∈ ids, id.idType = "dns" ∨ id.idType = "ip")
    (hvalid : validateCsrIdentifiers ids parsedCsr.subjectAlternativeNames = .ok ()) :
    NamesAuthorized ids request ↔ SubjectAuthorized lib ids csr.subject := by
  obtain ⟨hsans, hids⟩ := (validateCsrIdentifiers_eq_ok_iff _ _).mp hvalid
  have hnames : (∀ san ∈ request.subjectAltNames, ∃ id ∈ ids, san.Names id) ∧
      ∀ id ∈ ids, ∃ san ∈ request.subjectAltNames, san.Names id := by
    rw [hreq.sans]
    refine ⟨fun p hp => ?_, fun id hid => ?_⟩
    · obtain ⟨san, hsan, hproto⟩ := List.mem_filterMap.mp hp
      obtain ⟨id, hid, hrequests⟩ := hsans san hsan
      obtain ⟨p', hp', hname⟩ := names_of_requests hrequests (htypes id hid)
      obtain rfl := Option.some.inj (hproto.symm.trans hp')
      exact ⟨id, hid, hname⟩
    · obtain ⟨san, hsan, hrequests⟩ := hids id hid
      obtain ⟨p, hp, hname⟩ := names_of_requests hrequests (htypes id hid)
      exact ⟨p, List.mem_filterMap.mpr ⟨san, hsan, hp⟩, hname⟩
  have hcommon : NamesAuthorized ids request ↔
      ∀ cn, request.subject.commonName = some cn → ∃ id ∈ ids, SameName cn id.value :=
    ⟨fun h => h.commonName, fun h => ⟨hnames.1, h, hnames.2⟩⟩
  rw [hcommon]
  rcases commonName_cases hempty hreq with ⟨hisEmpty, hderived⟩ |
    ⟨hisEmpty, der, name, hder, hname, hcn⟩
  · refine iff_of_true (fun cn hcn => ?_) (.inl hisEmpty)
    obtain ⟨id, hid, hrequests⟩ := hsans _ (hderived cn hcn)
    obtain ⟨p, hp, hname⟩ := names_of_requests hrequests (htypes id hid)
    rw [protoSan_dns] at hp
    obtain rfl := Option.some.inj hp
    exact ⟨id, hid, hname.2⟩
  · rw [hcn]
    refine ⟨fun h => .inr fun der' name' cn hder' hname' hcn' => ?_, fun h cn hcn' => ?_⟩
    · obtain rfl := Except.ok.inj (hder.symm.trans hder')
      obtain rfl := Except.ok.inj (hname.symm.trans hname')
      exact h cn hcn'
    · rcases h with h | h
      · rw [hisEmpty] at h
        cases h
      · exact h der name cn hder hname hcn'

end

end Ostrich.Acme
