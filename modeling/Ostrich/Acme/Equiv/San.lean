import Ostrich.Acme.Equiv.Finalize
import Ostrich.X509.Equiv.Csr

/-!
# Finalizing what was accepted

The order keeps an address as its RFC 5952 text and the CSR parser prints it in its own way:
dotted decimal for IPv4, but all eight groups with four digits each for IPv6.
`validateCsrIdentifiers_iff_full`: a CSR for the identifiers of an accepted order passes exactly
when every IPv6 address among them has no group below `0x1000`, so that the two texts agree.
-/

namespace Ostrich.Acme

open Text X509

variable {nameFromAscii : String → Option Bool} {id : Identifier} {a : AuthzIdentifier}

/-! ### Accepted identifiers -/

/-- `validateDnsIdentifier` admits ASCII only. -/
theorem ascii_of_dnsIdentifierViolation {domain : String}
    (h : dnsIdentifierViolation domain = none) : ∀ c ∈ domain.toList, c.toNat < 128 := by
  intro c hc
  unfold dnsIdentifierViolation at h
  split_ifs at h with h₁ h₂
  dsimp only at h
  split_ifs at h with hlabels hdigits
  rcases mem_of_splitCharList (c := '.') hc with rfl | ⟨piece, hpiece, hmem⟩
  · decide
  · have hlabel : isLdhLabel (String.ofList piece) = true := by
      by_contra hbad
      refine hlabels (List.any_eq_true.mpr ⟨_, List.mem_map_of_mem hpiece, ?_⟩)
      simpa using hbad
    unfold isLdhLabel at hlabel
    split at hlabel
    · simp only [Bool.and_eq_true, String.toList_ofList, List.all_eq_true, Bool.or_eq_true,
        decide_eq_true_eq] at hlabel
      rcases hlabel.2 c hmem with halnum | rfl
      · simp only [isAsciiAlphanumeric, Bool.or_eq_true, Bool.and_eq_true, decide_eq_true_eq]
          at halnum
        omega
      · decide
    · cases hlabel

theorem validateDnsIdentifier_eq_ok {domain : String} {u : Unit}
    (h : validateDnsIdentifier domain = .ok u) : dnsIdentifierViolation domain = none := by
  unfold validateDnsIdentifier at h
  split at h
  · assumption
  · cases h
  · cases h

/-- An accepted DNS name is short and has ASCII characters only. -/
theorem parseDns_eq_ok {value : String} (h : parseDns nameFromAscii value = .ok a) :
    value.toList.length ≤ 253 ∧ ∀ c ∈ value.toList, c.toNat < 128 := by
  unfold parseDns at h
  split_ifs at h with hsize
  · cases h
  refine ⟨(length_toList_le value).trans (Nat.le_of_not_lt hsize), ?_⟩
  cases hstrip : stripPrefix value wildcardPrefix with
  | none =>
    simp only [hstrip] at h
    by_cases hstar : value.toList.contains '*' = true
    · rw [if_pos hstar] at h
      cases h
    · rw [if_neg hstar] at h
      obtain ⟨_, hvalid, -⟩ := bind_eq_ok h
      exact ascii_of_dnsIdentifierViolation (validateDnsIdentifier_eq_ok hvalid)
  | some base =>
    simp only [hstrip] at h
    by_cases hstar : base.toList.contains '*' = true
    · rw [if_pos hstar] at h
      cases h
    · rw [if_neg hstar] at h
      obtain ⟨_, hvalid, -⟩ := bind_eq_ok h
      have hascii := ascii_of_dnsIdentifierViolation (validateDnsIdentifier_eq_ok hvalid)
      rw [stripPrefix_eq_some.mp hstrip, String.toList_append]
      intro c hc
      rcases List.mem_append.mp hc with hc | hc
      · have hwildcard : wildcardPrefix.toList = ['*', '.'] := rfl
        rw [hwildcard, List.mem_cons, List.mem_singleton] at hc
        rcases hc with rfl | rfl
        · decide
        · decide
      · exact hascii c hc

/-- An accepted address is its own text and not an IPv4 address in IPv6 form. -/
theorem parseIp_eq_ok {value : String} (h : parseIp value = .ok a) :
    ∃ ip, Net.parseIpAddr value = some ip ∧ Net.fmtIpAddr ip = value ∧
      ∀ v6, ip = .v6 v6 → Net.toIpv4Mapped v6 = none := by
  unfold parseIp at h
  split at h
  · cases h
  · rename_i ip hip
    dsimp only at h
    split_ifs at h with hfmt hembedded
    refine ⟨ip, hip, not_not.mp hfmt, ?_⟩
    rintro v6 rfl
    by_contra hmapped
    refine hembedded ?_
    dsimp only
    rw [isIpv4Embedded, if_pos (Option.isSome_iff_ne_none.mpr hmapped)]

/-! ### The general names of a CSR -/

/-- The octets of an address. -/
def ipOctets : Net.IpAddr → List UInt8
  | .v4 ip => [ip.octets 0, ip.octets 1, ip.octets 2, ip.octets 3]
  | .v6 ip => (List.ofFn ip.segments).flatMap fun g =>
    [UInt8.ofNat (g.toNat / 256), UInt8.ofNat g.toNat]

/-- The general name of an identifier: iPAddress or dNSName. -/
def generalNameOf (id : Identifier) : UInt8 × List UInt8 :=
  if id.idType = "ip" then (0x87, ((Net.parseIpAddr id.value).map ipOctets).getD [])
  else (0x82, id.value.toList.map fun c => UInt8.ofNat c.toNat)

/-- The text that the CSR parser prints for an address. -/
def ipText : Net.IpAddr → String
  | .v4 ip => Net.fmtIpv4 ip
  | .v6 ip => String.ofList (Net.fmtExpanded (List.ofFn ip.segments))

/-- The text that the CSR parser prints for an identifier. -/
def sanText (id : Identifier) : String :=
  if id.idType = "ip" then "IP:" ++ ((Net.parseIpAddr id.value).map ipText).getD ""
  else "DNS:" ++ id.value

theorem hexFixed_two_append (n : ℕ) :
    hexFixed 2 (n / 256) ++ hexFixed 2 (n % 256) = hexFixed 4 n := by
  have h₁ : n / 256 / 16 % 16 = n / 16 / 16 / 16 % 16 := by omega
  have h₂ : n / 256 % 16 = n / 16 / 16 % 16 := by omega
  have h₃ : n % 256 / 16 % 16 = n / 16 % 16 := by omega
  have h₄ : n % 256 % 16 = n % 16 := by omega
  simp only [hexFixed, List.nil_append, List.cons_append, h₁, h₂, h₃, h₄]

theorem fmtOctetPair_group (g : UInt16) :
    fmtOctetPair (UInt8.ofNat (g.toNat / 256)) (UInt8.ofNat g.toNat) = hexFixed 4 g.toNat := by
  have hlt : g.toNat < 65536 := g.toNat_lt
  rw [fmtOctetPair, UInt8.toNat_ofNat', UInt8.toNat_ofNat',
    Nat.mod_eq_of_lt (show g.toNat / 256 < 2 ^ 8 by omega)]
  exact hexFixed_two_append g.toNat

theorem fmtIpSan_ipOctets (ip : Net.IpAddr) :
    fmtIpSan (ipOctets ip) = some ("IP:" ++ ipText ip) := by
  cases ip with
  | v4 ip =>
    refine congrArg some ?_
    simp only [ipText, Net.fmtIpv4, ← String.toList_inj, String.toList_append, List.append_assoc]
    rfl
  | v6 ip =>
    have hgroups : List.ofFn ip.segments = [ip.segments 0, ip.segments 1, ip.segments 2,
        ip.segments 3, ip.segments 4, ip.segments 5, ip.segments 6, ip.segments 7] := rfl
    simp only [ipOctets, ipText, hgroups, List.flatMap_cons, List.flatMap_nil, List.cons_append,
      List.nil_append]
    rw [fmtIpSan]
    refine congrArg some ?_
    simp only [← String.toList_inj, String.toList_append, String.toList_ofList, fmtOctetPair_group,
      Net.fmtExpanded, List.append_assoc, List.cons_append]

/-- An accepted identifier is read back from its general name, as its text. -/
theorem printedAs_generalNameOf {lib : Asn1Lib} (hlib : DecodesSans lib)
    (h : parseOrderIdentifier nameFromAscii id = .ok a) :
    PrintedAs lib (generalNameOf id) (sanText id) ∧ (generalNameOf id).2.length ≤ 253 := by
  unfold parseOrderIdentifier at h
  split_ifs at h with hdns hip
  · obtain ⟨hlen, hascii⟩ := parseDns_eq_ok h
    have hne : id.idType ≠ "ip" := by
      rw [hdns]
      decide
    rw [generalNameOf, sanText, if_neg hne, if_neg hne]
    refine ⟨fun rest => ⟨_, hlib.dnsName id.value.toList rest hascii (by omega), ?_⟩, ?_⟩
    · rw [String.ofList_toList]
      rfl
    · rwa [List.length_map]
  · obtain ⟨ip, hparse, -, -⟩ := parseIp_eq_ok h
    have hoctets : (ipOctets ip).length ≤ 16 := by
      cases ip with
      | v4 ip => simp [ipOctets]
      | v6 ip =>
        simp only [ipOctets, List.length_flatMap, List.length_cons, List.length_nil]
        simp
    rw [generalNameOf, sanText, if_pos hip, if_pos hip, hparse]
    exact ⟨fun rest => ⟨_, hlib.ipAddress _ rest (by simp; omega), fmtIpSan_ipOctets ip⟩,
      hoctets.trans (by decide)⟩

/-! ### The identifiers of the order -/

theorem length_le_of_validate {ids : List Identifier} {expected : List AuthzIdentifier}
    (h : validateOrderIdentifiers nameFromAscii ids = .ok expected) : ids.length ≤ 100 := by
  unfold validateOrderIdentifiers at h
  split_ifs at h with hempty hmany
  exact Nat.le_of_not_lt hmany

/-- Every IPv6 address among the identifiers has four digits in each group. -/
def FullAddresses (ids : List Identifier) : Prop :=
  ∀ id ∈ ids, id.idType = "ip" → ∀ ip, Net.parseIpAddr id.value = some (.v6 ip) →
    ∀ i, 0x1000 ≤ (ip.segments i).toNat

/-- The text of an accepted identifier asks for it, if an address is printed as it was accepted. -/
theorem requests_sanText (h : parseOrderIdentifier nameFromAscii id = .ok a)
    (hfull : id.idType = "ip" → ∀ ip, Net.parseIpAddr id.value = some (.v6 ip) →
      ∀ i, 0x1000 ≤ (ip.segments i).toNat) : Requests (sanText id) id := by
  unfold parseOrderIdentifier at h
  split_ifs at h with hdns hip
  · have hne : id.idType ≠ "ip" := by
      rw [hdns]
      decide
    rw [Requests, sanText, if_neg hne, requestedIdentifier_dns, hdns]
    rfl
  · obtain ⟨ip, hparse, hfmt, -⟩ := parseIp_eq_ok h
    have htext : ipText ip = id.value := by
      cases ip with
      | v4 ip => exact hfmt
      | v6 ip => rw [← hfmt, ipText, Net.fmtIpAddr, Net.fmtIpv6_of_full (hfull hip ip hparse)]
    rw [Requests, sanText, if_pos hip, requestedIdentifier_ip, hparse, hip]
    show Except.ok ("ip", ipText ip) = _
    rw [htext]
    rfl

/-- A text that asks for an IPv6 address is its text with all digits. -/
theorem full_of_requests {id' : Identifier} {a' : AuthzIdentifier}
    (h : parseOrderIdentifier nameFromAscii id = .ok a)
    (h' : parseOrderIdentifier nameFromAscii id' = .ok a') (hip : id.idType = "ip")
    {ip : Net.Ipv6Addr} (hparse : Net.parseIpAddr id.value = some (.v6 ip))
    (hrequests : Requests (sanText id') id) : ∀ i, 0x1000 ≤ (ip.segments i).toNat := by
  have hvalue : parseIp id.value = .ok a := by
    rw [parseOrderIdentifier, hip, if_neg (by decide), if_pos rfl] at h
    exact h
  obtain ⟨_, hparse', hfmt, hmapped⟩ := parseIp_eq_ok hvalue
  obtain rfl := Option.some.inj (hparse.symm.trans hparse')
  rw [Requests, sanText, hip] at hrequests
  unfold parseOrderIdentifier at h'
  split_ifs at h' with hdns hip'
  · rw [if_neg (by rw [hdns]; decide), requestedIdentifier_dns] at hrequests
    exact absurd (Prod.mk.inj (Except.ok.inj hrequests)).1 (by decide)
  · obtain ⟨other, hother, hother_fmt, -⟩ := parseIp_eq_ok h'
    rw [if_pos hip', requestedIdentifier_ip, hother] at hrequests
    have htext : ipText other = id.value := (Prod.mk.inj (Except.ok.inj hrequests)).2
    cases other with
    | v4 other =>
      -- the two identifiers would be the same text
      have hsame : id'.value = id.value := hother_fmt.symm.trans htext
      rw [hsame, hparse] at hother
      cases hother
    | v6 other =>
      refine Net.full_of_length_fmtIpv6 (hmapped ip rfl) ?_
      have hlen := congrArg (fun s => s.toList.length) (hfmt.trans htext.symm)
      simp only [Net.fmtIpAddr, ipText, String.toList_ofList, Net.length_fmtExpanded,
        List.length_ofFn] at hlen
      exact hlen

/-- **Finalizing what was accepted**: a CSR whose subjectAltName extension has the identifiers of
an accepted order, in any order, passes the check of finalize if and only if the IPv6 addresses
among them have four digits in each group. -/
theorem validateCsrIdentifiers_iff_full {lib : Asn1Lib} (hlib : DecodesSans lib)
    {ids ids' : List Identifier} {expected : List AuthzIdentifier}
    (haccepted : validateOrderIdentifiers nameFromAscii ids = .ok expected) (hperm : ids'.Perm ids)
    {der : List UInt8} (hne : der ≠ []) {request : X509Request}
    (hrequest : lib.requestFromDer der = .ok request)
    (hattributes : (request.attributes.filter fun a => a.1 = extensionRequestOid)
      = [(extensionRequestOid, extensionRequest (ids'.map generalNameOf))]) :
    (∃ csr, parseCsr lib der = .ok csr ∧
      validateCsrIdentifiers ids csr.subjectAlternativeNames = .ok ()) ↔ FullAddresses ids := by
  have hparse := exists_parse_of_validate haccepted
  have hprinted : List.Forall₂ (PrintedAs lib) (ids'.map generalNameOf) (ids'.map sanText) := by
    rw [List.forall₂_map_left_iff, List.forall₂_map_right_iff, List.forall₂_same]
    intro id hid
    obtain ⟨a, ha⟩ := hparse id (hperm.mem_iff.mp hid)
    exact (printedAs_generalNameOf hlib ha).1
  have hlen : (generalNames (ids'.map generalNameOf)).length < 2 ^ 31 := by
    have hle : (generalNames (ids'.map generalNameOf)).length
        ≤ (ids'.map generalNameOf).length * (253 + 6) := by
      refine length_generalNames_le fun name hname => ?_
      obtain ⟨id, hid, rfl⟩ := List.mem_map.mp hname
      obtain ⟨a, ha⟩ := hparse id (hperm.mem_iff.mp hid)
      exact (printedAs_generalNameOf hlib ha).2
    rw [List.length_map, hperm.length_eq] at hle
    have hids := length_le_of_validate haccepted
    omega
  obtain ⟨csr, hcsr, hsans⟩ := parseCsr_extensionRequest hlib hprinted hlen hne hrequest hattributes
  have hiff : (∃ csr, parseCsr lib der = .ok csr ∧
      validateCsrIdentifiers ids csr.subjectAlternativeNames = .ok ()) ↔
      validateCsrIdentifiers ids (ids'.map sanText) = .ok () := by
    rw [hcsr, ← hsans]
    exact ⟨fun ⟨csr', h, hv⟩ => Outcome.ok.inj h ▸ hv, fun hv => ⟨csr, rfl, hv⟩⟩
  rw [hiff, validateCsrIdentifiers_eq_ok_iff]
  constructor
  · rintro ⟨-, hids⟩ id hid hip ip hip_parse
    obtain ⟨san, hsan, hrequests⟩ := hids id hid
    obtain ⟨id', hid', rfl⟩ := List.mem_map.mp hsan
    obtain ⟨a, ha⟩ := hparse id hid
    obtain ⟨a', ha'⟩ := hparse id' (hperm.mem_iff.mp hid')
    exact full_of_requests ha ha' hip hip_parse hrequests
  · intro hfull
    have hall (id : Identifier) (hid : id ∈ ids) : Requests (sanText id) id := by
      obtain ⟨a, ha⟩ := hparse id hid
      exact requests_sanText ha (hfull id hid)
    refine ⟨fun san hsan => ?_, fun id hid => ?_⟩
    · obtain ⟨id, hid, rfl⟩ := List.mem_map.mp hsan
      exact ⟨id, hperm.mem_iff.mp hid, hall id (hperm.mem_iff.mp hid)⟩
    · exact ⟨sanText id, List.mem_map_of_mem (hperm.mem_iff.mpr hid), hall id hid⟩

/-! ### Two requests -/

/-- A request for these identifiers, without a subject. -/
def requestFor (ids : List Identifier) : List UInt8 :=
  certificationRequest (Der.tlv 0x30 []) (Der.tlv 0x30 []) (ids.map generalNameOf)
    [0x2b, 0x65, 0x70] [1]

/-- `Name::from_ascii` of a short name: whether it ends in a dot. -/
def fqdn (name : String) : Option Bool := some (name.toList.getLast? = some '.')

/-- The extensionRequest attributes of a request. -/
def extensionRequestsOf (der : List UInt8) : Option (List (String × List UInt8)) :=
  (Reader.derReader.requestFromDer der).toOption.map fun request =>
    request.attributes.filter fun a => a.1 = extensionRequestOid

/-- Not an IPv6 address with a group below `0x1000`. -/
def fullAddress : Option Net.IpAddr → Bool
  | some (.v6 ip) => ∀ i, 0x1000 ≤ (ip.segments i).toNat
  | _ => true

/-- The subject alternative names of a request that was read. -/
def sansOf : Outcome X509.Error ParsedCsr → Option (List String)
  | .ok csr => some csr.subjectAlternativeNames
  | _ => none

/-- A wildcard, an IPv4 address and an IPv6 address with all digits can be finalized. -/
theorem validateCsrIdentifiers_iff_full_three :
    let ids : List Identifier := [⟨"dns", "*.a.b"⟩, ⟨"ip", "1.2.3.4"⟩,
      ⟨"ip", "2001:1db8:ffff:1000:2000:3000:4000:5000"⟩]
    ∃ csr, parseCsr Reader.derReader (requestFor ids) = .ok csr ∧
      validateCsrIdentifiers ids csr.subjectAlternativeNames = .ok () := by
  intro ids
  have haccepted : (validateOrderIdentifiers fqdn ids).toOption.isSome := by
    decide +kernel
  obtain ⟨expected, haccepted⟩ := Option.isSome_iff_exists.mp haccepted
  have hattributes : extensionRequestsOf (requestFor ids)
      = some [(extensionRequestOid, extensionRequest (ids.map generalNameOf))] := by
    decide +kernel
  obtain ⟨request, hrequest, hfilter⟩ := Option.map_eq_some_iff.mp hattributes
  refine (validateCsrIdentifiers_iff_full Reader.decodesSans_derReader
    (eq_ok_of_toOption haccepted) (List.Perm.refl ids) (by decide +kernel)
    (eq_ok_of_toOption hrequest) hfilter).mpr ?_
  have hfull : ∀ id ∈ ids, fullAddress (Net.parseIpAddr id.value) = true := by
    decide +kernel
  intro id hid _ ip hparse
  have hip := hfull id hid
  rw [hparse] at hip
  exact of_decide_eq_true hip

/-- The CSR for the accepted address `::1` is refused. -/
theorem loopback_refused :
    let ids : List Identifier := [⟨"ip", "::1"⟩]
    (∃ expected, validateOrderIdentifiers fqdn ids = .ok expected) ∧
    extensionRequestsOf (requestFor ids)
      = some [(extensionRequestOid, extensionRequest (ids.map generalNameOf))] ∧
    ∃ csr, parseCsr Reader.derReader (requestFor ids) = .ok csr ∧
      csr.subjectAlternativeNames = ["IP:0000:0000:0000:0000:0000:0000:0000:0001"] ∧
      ¬validateCsrIdentifiers ids csr.subjectAlternativeNames = .ok () := by
  intro ids
  have haccepted : (validateOrderIdentifiers fqdn ids).toOption.isSome := by
    decide +kernel
  obtain ⟨expected, haccepted⟩ := Option.isSome_iff_exists.mp haccepted
  refine ⟨⟨expected, eq_ok_of_toOption haccepted⟩, by decide +kernel, ?_⟩
  have hsans : sansOf (parseCsr Reader.derReader (requestFor ids))
      = some ["IP:0000:0000:0000:0000:0000:0000:0000:0001"] := by
    decide +kernel
  have hrefused : ¬validateCsrIdentifiers ids ["IP:0000:0000:0000:0000:0000:0000:0000:0001"]
      = .ok () := by
    decide +kernel
  cases hcsr : parseCsr Reader.derReader (requestFor ids) with
  | ok csr =>
    rw [hcsr] at hsans
    have hnames := Option.some.inj hsans
    exact ⟨csr, rfl, hnames, hnames ▸ hrefused⟩
  | _ => rw [hcsr] at hsans; cases hsans

end Ostrich.Acme
