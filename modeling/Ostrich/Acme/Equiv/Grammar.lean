import Mathlib.Algebra.Ring.Nat
import Ostrich.Acme.Equiv.Identifier
import Ostrich.Lib.NetText

/-!
# The grammar of order identifiers

A `dns` identifier is a list of labels with dots between, or `*.` and such a list; an `ip`
identifier is the printed text of an address.  The checks of `parseDns` and `parseIp` overlap (the
length is looked at twice, the labels up to three times, and an IP literal is refused both as one
and for its last label); `parseOrderIdentifier_eq_ok_iff` says that together they are this grammar.

The DNS library enters with one fact, `QueryNames`: it takes `_acme-challenge.<base>.` as a fully
qualified name if that has at most 255 octets on the wire, and refuses it otherwise.

`validateOrderIdentifiers_iff`: which lists are accepted, and with which challenges.
-/

namespace Ostrich.Acme.Grammar

open Text

/-- A label of letters, digits and hyphens. -/
structure IsLdh (label : List Char) : Prop where
  ne_nil : label ≠ []
  length_le : label.length ≤ maxLabelLen
  head : label.head? ≠ some '-'
  last : label.getLast? ≠ some '-'
  ldh : ∀ c ∈ label, isAsciiAlphanumeric c = true ∨ c = '-'

/-- Labels with dots between them. -/
def dotted : List (List Char) → List Char
  | [] => []
  | first :: rest => first ++ rest.flatMap ('.' :: ·)

/-- The text of a name. -/
def name (labels : List (List Char)) : String := String.ofList (dotted labels)

/-- The labels of a host name; the last one is not a number. -/
structure IsHost (labels : List (List Char)) : Prop where
  ldh : ∀ label ∈ labels, IsLdh label
  last : ∃ label, labels.getLast? = some label ∧ ∃ c ∈ label, isAsciiDigit c = false

/-- The octets of a name on the wire: each label with its length, and the root. -/
def wireLength (labels : List (List Char)) : ℕ := (labels.map fun label => label.length + 1).sum + 1

/-- `_acme-challenge` and these labels make a name that can be queried. -/
def Queryable (labels : List (List Char)) : Prop :=
  wireLength (acmeChallengeLabel.toList :: labels) ≤ 255

/-- `::ffff:a.b.c.d`, or `::a.b.c.d` other than `::` and `::1`. -/
def EmbedsIpv4 : Net.IpAddr → Prop
  | .v4 _ => False
  | .v6 a => ((∀ i : Fin 5, a.segments (i.castLE Net.mapped_le) = 0) ∧ a.segments 5 = 0xffff) ∨
    ((∀ i : Fin 6, a.segments (i.castLE (by decide)) = 0) ∧
      ¬ (a.segments 6 = 0 ∧ (a.segments 7 = 0 ∨ a.segments 7 = 1)))

/-- The authorization that an identifier of the grammar stands for. -/
inductive Denotes : Identifier → AuthzIdentifier → Prop
  | dns (labels : List (List Char)) : IsHost labels → (name labels).utf8ByteSize ≤ maxDnsNameLen →
      Denotes ⟨"dns", name labels⟩ ⟨"dns", name labels, false⟩
  | wildcard (labels : List (List Char)) : IsHost labels → 2 ≤ labels.length →
      (wildcardPrefix ++ name labels).utf8ByteSize ≤ maxDnsNameLen → Queryable labels →
      Denotes ⟨"dns", wildcardPrefix ++ name labels⟩ ⟨"dns", name labels, true⟩
  | ip (address : Net.IpAddr) : ¬ EmbedsIpv4 address →
      Denotes ⟨"ip", Net.fmtIpAddr address⟩ ⟨"ip", Net.fmtIpAddr address, false⟩

/-- The same type and, up to ASCII case, the same value. -/
def Same (id id' : Identifier) : Prop :=
  id.idType = id'.idType ∧ toAsciiLowercase id.value = toAsciiLowercase id'.value

/-- What the DNS library makes of the query name of a host name. -/
def QueryNames (nameFromAscii : String → Option Bool) : Prop :=
  ∀ labels : List (List Char), labels ≠ [] → (∀ label ∈ labels, IsLdh label) →
    nameFromAscii (acmeChallengeLabel ++ "." ++ name labels ++ ".") =
      if wireLength (acmeChallengeLabel.toList :: labels) ≤ 255 then some true else none

/-! ### Labels -/

theorem not_ldh_dot : ¬ (isAsciiAlphanumeric '.' = true ∨ '.' = '-') := by decide

theorem not_ldh_colon : ¬ (isAsciiAlphanumeric ':' = true ∨ ':' = '-') := by decide

theorem not_ldh_star : ¬ (isAsciiAlphanumeric '*' = true ∨ '*' = '-') := by decide

theorem toNat_lt_of_ldh {c : Char} (h : isAsciiAlphanumeric c = true ∨ c = '-') :
    c.toNat < 128 := by
  rcases h with h | rfl
  · simp only [isAsciiAlphanumeric, Bool.or_eq_true, Bool.and_eq_true, decide_eq_true_eq] at h
    omega
  · decide

/-- `isLdhLabel` decides the form of a label. -/
theorem isLdhLabel_iff {label : List Char} :
    isLdhLabel (String.ofList label) = true ↔ IsLdh label := by
  unfold isLdhLabel
  rw [String.toList_ofList]
  by_cases hnil : label = []
  · subst hnil
    simp only [List.head?_nil]
    constructor
    · intro h
      cases h
    · intro h
      exact absurd rfl h.ne_nil
  · obtain ⟨first, hfirst⟩ := Option.ne_none_iff_exists'.1 (mt List.head?_eq_none_iff.1 hnil)
    obtain ⟨last, hlast⟩ := Option.ne_none_iff_exists'.1 (mt List.getLast?_eq_none_iff.1 hnil)
    rw [hfirst, hlast]
    simp only [Bool.and_eq_true, decide_eq_true_eq, List.all_eq_true, Bool.or_eq_true]
    constructor
    · rintro ⟨⟨⟨hsize, hhead⟩, hend⟩, hall⟩
      have hbytes := utf8ByteSize_of_ascii fun c hc => toNat_lt_of_ldh (hall c hc)
      exact ⟨hnil, by omega, by rw [hfirst]; simpa using hhead, by rw [hlast]; simpa using hend,
        hall⟩
    · intro h
      have hbytes := utf8ByteSize_of_ascii fun c hc => toNat_lt_of_ldh (h.ldh c hc)
      have hsize := h.length_le
      have hhead := h.head
      have hend := h.last
      rw [hfirst] at hhead
      rw [hlast] at hend
      exact ⟨⟨⟨by omega, by simpa using hhead⟩, by simpa using hend⟩, h.ldh⟩

theorem isAsciiDigit_of_toDigit {c : Char} (h : Net.toDigit 10 c ≠ none) :
    isAsciiDigit c = true := by
  unfold Net.toDigit at h
  unfold isAsciiDigit
  simp only [Bool.and_eq_true, decide_eq_true_eq]
  by_contra hdigit
  apply h
  dsimp only
  rw [if_neg hdigit]
  split_ifs <;> simp [Option.filter] <;> omega

/-! ### Dots -/

/-- The last label ends the text, after a dot if there are others. -/
theorem exists_dotted_eq {labels : List (List Char)} {label : List Char}
    (h : labels.getLast? = some label) :
    dotted labels = label ∨ ∃ front, dotted labels = front ++ '.' :: label := by
  cases labels with
  | nil => cases h
  | cons first rest =>
    rcases List.eq_nil_or_concat rest with rfl | ⟨init, last, rfl⟩
    · left
      obtain rfl : first = label := by simpa using h
      simp [dotted]
    · right
      rw [List.concat_eq_append, ← List.cons_append, List.getLast?_concat] at h
      obtain rfl : last = label := Option.some.inj h
      exact ⟨first ++ init.flatMap ('.' :: ·), by simp [dotted, List.flatMap_append]⟩

theorem splitCharList_dotted {labels : List (List Char)} (hne : labels ≠ [])
    (hdot : ∀ label ∈ labels, '.' ∉ label) : splitCharList '.' (dotted labels) = labels := by
  cases labels with
  | nil => exact absurd rfl hne
  | cons first rest =>
    exact splitCharList_join (hdot first (by simp)) fun piece hpiece =>
      hdot piece (List.mem_cons_of_mem _ hpiece)

theorem dotted_splitCharList (l : List Char) : dotted (splitCharList '.' l) = l := by
  obtain ⟨first, rest, hsplit, hjoin⟩ := exists_splitCharList '.' l
  rw [hsplit]
  exact hjoin.symm

theorem mem_dotted {c : Char} {labels : List (List Char)} (h : c ∈ dotted labels) :
    c = '.' ∨ ∃ label ∈ labels, c ∈ label := by
  cases labels with
  | nil => cases h
  | cons first rest =>
    rcases List.mem_append.1 h with h | h
    · exact Or.inr ⟨first, by simp, h⟩
    · obtain ⟨label, hlabel, hmem⟩ := List.mem_flatMap.1 h
      rcases List.mem_cons.1 hmem with rfl | hmem
      · exact Or.inl rfl
      · exact Or.inr ⟨label, List.mem_cons_of_mem _ hlabel, hmem⟩

/-- There is a dot if and only if there are two labels. -/
theorem mem_dot_dotted_iff {labels : List (List Char)} (hdot : ∀ label ∈ labels, '.' ∉ label) :
    '.' ∈ dotted labels ↔ 2 ≤ labels.length := by
  cases labels with
  | nil => simp [dotted]
  | cons first rest =>
    cases rest with
    | nil => simpa [dotted] using hdot first (by simp)
    | cons second rest => simp [dotted]

namespace IsHost

variable {labels : List (List Char)}

theorem ne_nil (h : IsHost labels) : labels ≠ [] := by
  obtain ⟨label, hlast, -⟩ := h.last
  rintro rfl
  cases hlast

theorem dot_not_mem (h : IsHost labels) : ∀ label ∈ labels, '.' ∉ label :=
  fun label hlabel hmem => not_ldh_dot ((h.ldh label hlabel).ldh _ hmem)

/-- A host name has dots and characters of its labels. -/
theorem mem (h : IsHost labels) {c : Char} (hc : c ∈ dotted labels) :
    c = '.' ∨ isAsciiAlphanumeric c = true ∨ c = '-' := by
  rcases mem_dotted hc with hdot | ⟨label, hlabel, hmem⟩
  · exact Or.inl hdot
  · exact Or.inr ((h.ldh label hlabel).ldh c hmem)

theorem star_not_mem (h : IsHost labels) : '*' ∉ dotted labels := by
  intro hmem
  rcases h.mem hmem with hdot | hldh
  · exact absurd hdot (by decide)
  · exact not_ldh_star hldh

theorem toNat_lt (h : IsHost labels) : ∀ c ∈ dotted labels, c.toNat < 128 := by
  intro c hc
  rcases h.mem hc with rfl | hldh
  · decide
  · exact toNat_lt_of_ldh hldh

/-- A host name is not the text of an address. -/
theorem parseIpAddr_eq_none (h : IsHost labels) : Net.parseIpAddr (name labels) = none := by
  by_contra hsome
  obtain ⟨ip, hip⟩ := Option.ne_none_iff_exists'.1 hsome
  have htext := Net.dotted_or_colon_of_parseIpAddr hip
  rw [name, String.toList_ofList] at htext
  obtain ⟨label, hlast, c, hc, hdigit⟩ := h.last
  have hlabel : label ∈ labels := List.mem_of_getLast? hlast
  have hdotLabel := h.dot_not_mem label hlabel
  rcases htext with ⟨front, ds, htext, -, hds⟩ | hcolon
  · have hdotDigits : '.' ∉ ds := fun hmem => hds '.' hmem rfl
    rcases exists_dotted_eq hlast with heq | ⟨front', heq⟩
    · exact hdotLabel (by rw [← heq, htext]; simp)
    · rw [heq] at htext
      have hreverse := congrArg List.reverse htext
      simp only [List.reverse_append, List.reverse_cons, List.append_assoc,
        List.singleton_append] at hreverse
      have hsame := (eq_of_append_cons (by simpa using hdotLabel) (by simpa using hdotDigits)
        hreverse).1
      rw [List.reverse_injective hsame] at hc
      rw [isAsciiDigit_of_toDigit (hds c hc)] at hdigit
      cases hdigit
  · rcases h.mem hcolon with hdot | hldh
    · exact absurd hdot (by decide)
    · exact not_ldh_colon hldh

end IsHost

/-! ### The rules for names -/

/-- **The rules for a name accept the host names of at most 253 octets.** -/
theorem dnsIdentifierViolation_eq_none_iff {domain : String} :
    dnsIdentifierViolation domain = none ↔
      domain.utf8ByteSize ≤ maxDomainLen ∧ ∃ labels, IsHost labels ∧ domain = name labels := by
  constructor
  · intro h
    unfold dnsIdentifierViolation at h
    split_ifs at h with hform hip
    dsimp only at h
    split_ifs at h with hlabels hdigits
    simp only [Bool.or_eq_true, decide_eq_true_eq, not_or, Nat.not_lt] at hform
    refine ⟨by omega, splitCharList '.' domain.toList, ⟨?_, ?_⟩, ?_⟩
    · intro label hlabel
      rw [← isLdhLabel_iff]
      by_contra hbad
      refine hlabels (List.any_eq_true.2 ⟨_, List.mem_map_of_mem hlabel, ?_⟩)
      simpa using hbad
    · obtain ⟨first, rest, hsplit, -⟩ := exists_splitCharList '.' domain.toList
      obtain ⟨label, hlast⟩ : ∃ label, (splitCharList '.' domain.toList).getLast? = some label := by
        rw [hsplit]
        exact ⟨_, List.getLast?_eq_some_getLast (List.cons_ne_nil _ _)⟩
      refine ⟨label, hlast, ?_⟩
      have hlabel : (splitChar '.' domain).getLastD "" = String.ofList label := by
        rw [List.getLastD_eq_getLast?, splitChar, List.getLast?_map, hlast]
        rfl
      rw [hlabel, String.toList_ofList] at hdigits
      by_contra hnone
      refine hdigits (List.all_eq_true.2 fun c hc => ?_)
      by_contra hc'
      exact hnone ⟨c, hc, Bool.eq_false_iff.2 hc'⟩
    · rw [name, dotted_splitCharList, String.ofList_toList]
  · rintro ⟨hsize, labels, hhost, rfl⟩
    obtain ⟨label, hlast, c, hc, hdigit⟩ := hhost.last
    have hlabel : label ∈ labels := List.mem_of_getLast? hlast
    have hsplit : splitChar '.' (name labels) = labels.map String.ofList := by
      rw [splitChar, name, String.toList_ofList,
        splitCharList_dotted hhost.ne_nil hhost.dot_not_mem]
    have hend : (dotted labels).getLast? = label.getLast? := by
      have hne := (hhost.ldh label hlabel).ne_nil
      rcases exists_dotted_eq hlast with heq | ⟨front, heq⟩
      · rw [heq]
      · rw [heq, List.getLast?_append_of_ne_nil _ (List.cons_ne_nil _ _),
          List.getLast?_cons_of_ne_nil hne]
    have hform : ¬ (decide ((name labels).toList = []) || decide ((name labels).toList.getLast? =
        some '.') || decide ((name labels).utf8ByteSize > maxDomainLen)) = true := by
      rw [name, String.toList_ofList] at *
      simp only [Bool.or_eq_true, decide_eq_true_eq, not_or, Nat.not_lt]
      refine ⟨⟨?_, ?_⟩, hsize⟩
      · intro hnil
        rw [hnil] at hend
        exact (hhost.ldh label hlabel).ne_nil (List.getLast?_eq_none_iff.1 hend.symm)
      · rw [hend]
        intro hdot
        exact hhost.dot_not_mem label hlabel (List.mem_of_getLast? hdot)
    unfold dnsIdentifierViolation
    rw [if_neg hform, hhost.parseIpAddr_eq_none, if_neg (by simp)]
    dsimp only
    rw [hsplit, if_neg, if_neg]
    · rw [List.getLastD_eq_getLast?, List.getLast?_map, hlast]
      simp only [Option.map_some, Option.getD_some, String.toList_ofList, List.all_eq_true]
      intro hall
      rw [hall c hc] at hdigit
      cases hdigit
    · simp only [List.any_eq_true, List.mem_map, not_exists, not_and]
      rintro _ ⟨piece, hpiece, rfl⟩
      rw [isLdhLabel_iff.2 (hhost.ldh piece hpiece)]
      simp

/-! ### One identifier -/

variable {nameFromAscii : String → Option Bool}

/-- The query name of a host name is taken if it fits. -/
theorem dns01QueryName_name (hlib : QueryNames nameFromAscii) {labels : List (List Char)}
    (hhost : IsHost labels) (hsize : (name labels).utf8ByteSize ≤ maxDomainLen) :
    dns01QueryName nameFromAscii (name labels) = .ok () ↔ Queryable labels := by
  have hvalid : dnsIdentifierViolation (name labels) = none :=
    dnsIdentifierViolation_eq_none_iff.2 ⟨hsize, labels, hhost, rfl⟩
  unfold dns01QueryName Queryable
  rw [hvalid]
  dsimp only
  rw [hlib labels hhost.ne_nil hhost.ldh]
  by_cases hwire : wireLength (acmeChallengeLabel.toList :: labels) ≤ 255
  · rw [if_pos hwire]
    exact ⟨fun _ => hwire, fun _ => rfl⟩
  · rw [if_neg hwire]
    exact ⟨fun h => by simp at h, fun h => absurd h hwire⟩

/-- The checks of `parseDns` after the prefix. -/
def checkBase (nameFromAscii : String → Option Bool) (base : String) (wildcard : Bool) :
    Result AuthzIdentifier := do
  if base.toList.contains '*' then
    throw (.RejectedIdentifier "only a single leftmost \"*.\" wildcard label is supported")
  validateDnsIdentifier base
  if wildcard && !base.toList.contains '.' then
    throw (.RejectedIdentifier "wildcard identifiers must have at least two labels after \"*.\"")
  if wildcard then
    match dns01QueryName nameFromAscii base with
    | .error _ => throw (.Malformed "wildcard base domain is too long for dns-01")
    | .ok _ => pure ()
  return ⟨"dns", base, wildcard⟩

theorem parseDns_eq_checkBase (value : String) : parseDns nameFromAscii value =
    if value.utf8ByteSize > maxDnsNameLen then
      .error (.Malformed "dns identifier is not a valid DNS name")
    else match stripPrefix value wildcardPrefix with
      | some base => checkBase nameFromAscii base true
      | none => checkBase nameFromAscii value false := by
  unfold parseDns
  split_ifs
  · rfl
  · cases stripPrefix value wildcardPrefix with
    | none => rfl
    | some base => rfl

/-- A base passes if it is a host name and, after a prefix, has two labels and can be queried. -/
theorem checkBase_eq_ok_iff {base : String} {wildcard : Bool} {a : AuthzIdentifier} :
    checkBase nameFromAscii base wildcard = .ok a ↔
      '*' ∉ base.toList ∧ dnsIdentifierViolation base = none ∧
        (wildcard = true → '.' ∈ base.toList ∧ dns01QueryName nameFromAscii base = .ok ()) ∧
        a = ⟨"dns", base, wildcard⟩ := by
  unfold checkBase
  by_cases hstar : '*' ∈ base.toList
  · rw [if_pos (List.contains_iff_mem.2 hstar)]
    exact ⟨fun h => (by cases h), fun h => absurd hstar h.1⟩
  · rw [if_neg (mt List.contains_iff_mem.1 hstar)]
    unfold validateDnsIdentifier
    cases hvalid : dnsIdentifierViolation base with
    | some violation =>
      constructor
      · intro h
        cases violation <;> cases h
      · rintro ⟨-, h, -⟩
        cases h
    | none =>
      cases wildcard with
      | false =>
        constructor
        · intro h
          exact ⟨hstar, rfl, fun h => (by cases h), (Except.ok.inj h).symm⟩
        · rintro ⟨-, -, -, rfl⟩
          rfl
      | true =>
        by_cases hdot : '.' ∈ base.toList
        · have hcontains : base.toList.contains '.' = true := List.contains_iff_mem.2 hdot
          cases hquery : dns01QueryName nameFromAscii base with
          | error e =>
            constructor
            · intro h
              simp only [hcontains] at h
              cases h
            · rintro ⟨-, -, h, -⟩
              cases (h rfl).2
          | ok u =>
            constructor
            · intro h
              simp only [hcontains] at h
              exact ⟨hstar, rfl, fun _ => ⟨hdot, rfl⟩, (Except.ok.inj h).symm⟩
            · rintro ⟨-, -, -, rfl⟩
              simp only [hcontains]
              rfl
        · have hcontains : base.toList.contains '.' = false := by
            rw [Bool.eq_false_iff]
            exact mt List.contains_iff_mem.1 hdot
          constructor
          · intro h
            simp only [hcontains] at h
            cases h
          · rintro ⟨-, -, h, -⟩
            exact absurd (h rfl).1 hdot

theorem utf8ByteSize_le_append (p s : String) : s.utf8ByteSize ≤ (p ++ s).utf8ByteSize := by
  rw [String.utf8ByteSize_append]
  omega

/-- The prefix is not part of a host name. -/
theorem stripPrefix_name {labels : List (List Char)} (hhost : IsHost labels) :
    stripPrefix (name labels) wildcardPrefix = none := by
  by_contra hsome
  obtain ⟨base, hbase⟩ := Option.ne_none_iff_exists'.1 hsome
  have htext := congrArg String.toList (stripPrefix_eq_some.1 hbase)
  rw [name, String.toList_ofList, String.toList_append] at htext
  exact hhost.star_not_mem (by rw [htext]; exact List.mem_append_left _ (by decide))

/-- **`parseDns` accepts the names of the grammar.** -/
theorem parseDns_eq_ok_iff (hlib : QueryNames nameFromAscii) {value : String}
    {a : AuthzIdentifier} :
    parseDns nameFromAscii value = .ok a ↔ Denotes ⟨"dns", value⟩ a := by
  rw [parseDns_eq_checkBase]
  constructor
  · intro h
    split_ifs at h with hsize
    have hle : value.utf8ByteSize ≤ maxDnsNameLen := Nat.le_of_not_lt hsize
    cases hstrip : stripPrefix value wildcardPrefix with
    | none =>
      rw [hstrip] at h
      obtain ⟨-, hvalid, -, rfl⟩ := checkBase_eq_ok_iff.1 h
      obtain ⟨-, labels, hhost, rfl⟩ := dnsIdentifierViolation_eq_none_iff.1 hvalid
      exact .dns labels hhost hle
    | some base =>
      rw [hstrip] at h
      obtain ⟨-, hvalid, hwildcard, rfl⟩ := checkBase_eq_ok_iff.1 h
      obtain ⟨hsizeBase, labels, hhost, rfl⟩ := dnsIdentifierViolation_eq_none_iff.1 hvalid
      obtain ⟨hdot, hquery⟩ := hwildcard rfl
      obtain rfl := stripPrefix_eq_some.1 hstrip
      rw [name, String.toList_ofList, mem_dot_dotted_iff hhost.dot_not_mem] at hdot
      exact .wildcard labels hhost hdot hle ((dns01QueryName_name hlib hhost hsizeBase).1 hquery)
  · generalize hid : (⟨"dns", value⟩ : Identifier) = id
    intro h
    cases h with
    | dns labels hhost hsize =>
      obtain rfl : value = name labels := congrArg Identifier.value hid
      rw [if_neg (Nat.not_lt.2 hsize), stripPrefix_name hhost]
      refine checkBase_eq_ok_iff.2 ⟨?_, ?_, fun h => (by cases h), rfl⟩
      · rw [name, String.toList_ofList]
        exact hhost.star_not_mem
      · exact dnsIdentifierViolation_eq_none_iff.2 ⟨hsize, labels, hhost, rfl⟩
    | wildcard labels hhost htwo hsize hquery =>
      obtain rfl : value = wildcardPrefix ++ name labels := congrArg Identifier.value hid
      have hsizeBase : (name labels).utf8ByteSize ≤ maxDomainLen :=
        (utf8ByteSize_le_append wildcardPrefix _).trans hsize
      rw [if_neg (Nat.not_lt.2 hsize), stripPrefix_append]
      refine checkBase_eq_ok_iff.2 ⟨?_, ?_, fun _ => ⟨?_, ?_⟩, rfl⟩
      · rw [name, String.toList_ofList]
        exact hhost.star_not_mem
      · exact dnsIdentifierViolation_eq_none_iff.2 ⟨hsizeBase, labels, hhost, rfl⟩
      · rw [name, String.toList_ofList, mem_dot_dotted_iff hhost.dot_not_mem]
        exact htwo
      · exact (dns01QueryName_name hlib hhost hsizeBase).2 hquery
    | ip address _ =>
      have htype : "dns" = "ip" := congrArg Identifier.idType hid
      exact absurd htype (by decide)

/-- `isIpv4Embedded` finds the embedded addresses. -/
theorem isIpv4Embedded_iff (a : Net.Ipv6Addr) :
    isIpv4Embedded a = true ↔ EmbedsIpv4 (.v6 a) := by
  unfold isIpv4Embedded EmbedsIpv4 Net.toIpv4Mapped
  by_cases hmapped : (∀ i : Fin 5, a.segments (i.castLE (by decide)) = 0) ∧ a.segments 5 = 0xffff
  · rw [if_pos hmapped]
    simp only [Option.isSome_some, if_true, true_iff]
    exact Or.inl hmapped
  · rw [if_neg hmapped]
    simp only [Option.isSome_none, Bool.false_eq_true, if_false, hmapped, false_or]
    have hsegments : List.ofFn a.segments = [a.segments 0, a.segments 1, a.segments 2,
        a.segments 3, a.segments 4, a.segments 5, a.segments 6, a.segments 7] := by
      simp [List.ofFn_succ]
    have hsix : (∀ i : Fin 6, a.segments (i.castLE (by decide)) = 0) ↔ a.segments 0 = 0 ∧
        a.segments 1 = 0 ∧ a.segments 2 = 0 ∧ a.segments 3 = 0 ∧ a.segments 4 = 0 ∧
        a.segments 5 = 0 := by
      constructor
      · intro h
        exact ⟨h 0, h 1, h 2, h 3, h 4, h 5⟩
      · rintro ⟨h₀, h₁, h₂, h₃, h₄, h₅⟩ i
        fin_cases i <;> assumption
    rw [hsegments, hsix]
    simp only [List.take_succ_cons, List.take_zero, List.all_cons, List.all_nil, Bool.and_true,
      Bool.and_eq_true, decide_eq_true_eq, List.foldl_cons, List.foldl_nil]
    constructor
    · rintro ⟨⟨h₀, h₁, h₂, h₃, h₄, h₅⟩, hbits⟩
      refine ⟨⟨h₀, h₁, h₂, h₃, h₄, h₅⟩, ?_⟩
      rintro ⟨h₆, h₇⟩
      rw [h₀, h₁, h₂, h₃, h₄, h₅, h₆] at hbits
      rcases h₇ with h₇ | h₇ <;> rw [h₇] at hbits <;> exact absurd hbits (by decide)
    · rintro ⟨⟨h₀, h₁, h₂, h₃, h₄, h₅⟩, hother⟩
      refine ⟨⟨h₀, h₁, h₂, h₃, h₄, h₅⟩, ?_⟩
      rw [h₀, h₁, h₂, h₃, h₄, h₅]
      simp only [UInt16.toNat_zero, Nat.zero_mul, Nat.add_zero, Nat.zero_add]
      by_contra hsmall
      apply hother
      rw [decide_eq_true_eq] at hsmall
      have h₆ : (a.segments 6).toNat = 0 := by omega
      have h₇ : (a.segments 7).toNat = 0 ∨ (a.segments 7).toNat = 1 := by omega
      refine ⟨UInt16.toNat_inj.1 h₆, ?_⟩
      rcases h₇ with h₇ | h₇
      · exact Or.inl (UInt16.toNat_inj.1 h₇)
      · exact Or.inr (UInt16.toNat_inj.1 h₇)

theorem toIpv4Mapped_eq_none {a : Net.Ipv6Addr} (h : ¬ EmbedsIpv4 (.v6 a)) :
    Net.toIpv4Mapped a = none := by
  refine if_neg fun hmapped => h ?_
  exact Or.inl hmapped

/-- **`parseIp` accepts the printed text of the addresses that embed no other.** -/
theorem parseIp_eq_ok_iff {value : String} {a : AuthzIdentifier} :
    parseIp value = .ok a ↔ Denotes ⟨"ip", value⟩ a := by
  constructor
  · intro h
    unfold parseIp at h
    cases hip : Net.parseIpAddr value with
    | none =>
      rw [hip] at h
      cases h
    | some address =>
      rw [hip] at h
      dsimp only at h
      by_cases hfmt : Net.fmtIpAddr address = value
      · rw [if_neg (not_not.2 hfmt)] at h
        split_ifs at h with hembedded
        obtain rfl := Except.ok.inj h
        rw [← hfmt]
        refine .ip address fun hembeds => hembedded ?_
        cases address with
        | v4 v4 => exact hembeds.elim
        | v6 v6 => exact (isIpv4Embedded_iff v6).2 hembeds
      · rw [if_pos hfmt] at h
        cases h
  · generalize hid : (⟨"ip", value⟩ : Identifier) = id
    intro h
    cases h with
    | dns labels _ _ =>
      have htype : "ip" = "dns" := congrArg Identifier.idType hid
      exact absurd htype (by decide)
    | wildcard labels _ _ _ _ =>
      have htype : "ip" = "dns" := congrArg Identifier.idType hid
      exact absurd htype (by decide)
    | ip address hembeds =>
      obtain rfl : value = Net.fmtIpAddr address := congrArg Identifier.value hid
      have hread : Net.parseIpAddr (Net.fmtIpAddr address) = some address := by
        apply Net.parseIpAddr_fmtIpAddr
        rintro v6 rfl
        exact toIpv4Mapped_eq_none hembeds
      unfold parseIp
      rw [hread]
      dsimp only
      rw [if_neg (not_not.2 rfl), if_neg]
      cases address with
      | v4 v4 => simp
      | v6 v6 => exact mt (isIpv4Embedded_iff v6).1 hembeds

theorem idType_of_denotes {id : Identifier} {a : AuthzIdentifier} (h : Denotes id a) :
    a.idType = id.idType ∧ (id.idType = "dns" ∨ id.idType = "ip") := by
  cases h with
  | dns => exact ⟨rfl, Or.inl rfl⟩
  | wildcard => exact ⟨rfl, Or.inl rfl⟩
  | ip => exact ⟨rfl, Or.inr rfl⟩

/-- **An identifier is accepted if and only if it is in the grammar.** -/
theorem parseOrderIdentifier_eq_ok_iff (hlib : QueryNames nameFromAscii) {id : Identifier}
    {a : AuthzIdentifier} :
    parseOrderIdentifier nameFromAscii id = .ok a ↔ Denotes id a := by
  obtain ⟨idType, value⟩ := id
  unfold parseOrderIdentifier
  dsimp only
  split_ifs with hdns hip
  · subst hdns
    exact parseDns_eq_ok_iff hlib
  · subst hip
    exact parseIp_eq_ok_iff
  · constructor
    · intro h
      cases h
    · intro h
      rcases (idType_of_denotes h).2 with h | h
      · exact absurd h hdns
      · exact absurd h hip

/-! ### Duplicates -/

theorem toLower_ne_star {c : Char} (h : c ≠ '*') : c.toLower ≠ '*' := by
  by_cases hupper : c.val ≥ 'A'.val ∧ c.val ≤ 'Z'.val
  · intro heq
    have hval : (c.val + ('a'.val - 'A'.val)).toNat = 42 := by
      rw [← toLower_of_upper hupper]
      exact congrArg Char.toNat heq
    have hlow : 65 ≤ c.val.toNat := hupper.1
    have hhigh : c.val.toNat ≤ 90 := hupper.2
    have hshift : ('a'.val - 'A'.val).toNat = 32 := by decide
    rw [UInt32.toNat_add, hshift] at hval
    omega
  · rw [toLower_of_not_upper hupper]
    exact h

theorem toAsciiLowercase_append (s t : String) :
    toAsciiLowercase (s ++ t) = toAsciiLowercase s ++ toAsciiLowercase t := by
  unfold toAsciiLowercase
  rw [String.toList_append, List.map_append, String.ofList_append]

/-- A name with the prefix is never one without it. -/
theorem toAsciiLowercase_wildcard_ne {labels : List (List Char)} (hhost : IsHost labels)
    (base : String) : toAsciiLowercase (wildcardPrefix ++ base)
      ≠ toAsciiLowercase (name labels) := by
  intro heq
  have htext := congrArg String.toList heq
  rw [toAsciiLowercase_append, String.toList_append] at htext
  have hstar : '*' ∈ (toAsciiLowercase (name labels)).toList := by
    rw [← htext]
    exact List.mem_append_left _ (by decide)
  rw [toAsciiLowercase, String.toList_ofList, name, String.toList_ofList] at hstar
  obtain ⟨c, hc, hlower⟩ := List.mem_map.1 hstar
  refine toLower_ne_star ?_ hlower
  rintro rfl
  exact hhost.star_not_mem hc

/-- Two accepted identifiers have one key if and only if they are the same up to case. -/
theorem key_eq_iff {id id' : Identifier} {a a' : AuthzIdentifier} (h : Denotes id a)
    (h' : Denotes id' a') : a.key = a'.key ↔ Same id id' := by
  have hkey : ∀ x y : AuthzIdentifier, x.key = y.key ↔ x.idType = y.idType ∧
      toAsciiLowercase x.value = toAsciiLowercase y.value ∧ x.wildcard = y.wildcard := by
    intro x y
    simp [AuthzIdentifier.key]
  have hcancel : ∀ s t : String, toAsciiLowercase (wildcardPrefix ++ s) =
      toAsciiLowercase (wildcardPrefix ++ t) ↔ toAsciiLowercase s = toAsciiLowercase t := by
    intro s t
    rw [toAsciiLowercase_append, toAsciiLowercase_append, String.append_right_inj]
  rw [hkey]
  unfold Same
  cases h with
  | dns labels hhost _ =>
    cases h' with
    | dns => simp
    | wildcard labels' => simp [(toAsciiLowercase_wildcard_ne hhost (name labels')).symm]
    | ip => simp
  | wildcard labels _ _ _ _ =>
    cases h' with
    | dns labels' hhost' _ => simp [toAsciiLowercase_wildcard_ne hhost' (name labels)]
    | wildcard => simp [hcancel]
    | ip => simp
  | ip address _ =>
    cases h' with
    | dns => simp
    | wildcard => simp
    | ip => simp

/-! ### Lists -/

/-- The loop accepts the identifiers of the grammar whose keys are new and differ. -/
theorem loop_eq_ok_iff (hlib : QueryNames nameFromAscii) : ∀ (ids : List Identifier)
    (seen : List (String × String × Bool)) (out result : List AuthzIdentifier),
    validateOrderIdentifiers.loop nameFromAscii ids seen out = .ok result ↔
      ∃ parsed, result = out ++ parsed ∧ List.Forall₂ Denotes ids parsed ∧
        (parsed.map AuthzIdentifier.key).Nodup ∧ ∀ a ∈ parsed, a.key ∉ seen := by
  intro ids
  induction ids with
  | nil =>
    intro seen out result
    unfold validateOrderIdentifiers.loop
    constructor
    · intro h
      exact ⟨[], by rw [List.append_nil, Except.ok.inj h], .nil, by simp, by simp⟩
    · rintro ⟨parsed, rfl, hall, -, -⟩
      cases hall
      rw [List.append_nil]
  | cons id ids ih =>
    intro seen out result
    unfold validateOrderIdentifiers.loop
    constructor
    · intro h
      obtain ⟨authz, hparse, h⟩ := bind_eq_ok h
      by_cases hseen : authz.key ∈ seen
      · rw [if_pos hseen] at h
        cases h
      · rw [if_neg hseen] at h
        obtain ⟨parsed, rfl, hall, hnodup, hfresh⟩ := (ih _ _ _).1 h
        refine ⟨authz :: parsed, by simp,
          .cons ((parseOrderIdentifier_eq_ok_iff hlib).1 hparse) hall, ?_, ?_⟩
        · rw [List.map_cons, List.nodup_cons]
          refine ⟨fun hmem => ?_, hnodup⟩
          obtain ⟨a, ha, hkey⟩ := List.mem_map.1 hmem
          exact hfresh a ha (by rw [hkey]; exact List.mem_cons_self ..)
        · intro a ha
          rcases List.mem_cons.1 ha with rfl | ha
          · exact hseen
          · exact fun hmem => hfresh a ha (List.mem_cons_of_mem _ hmem)
    · rintro ⟨parsed, rfl, hall, hnodup, hfresh⟩
      cases hall with
      | @cons _ authz _ parsed hdenotes hall =>
        rw [List.map_cons, List.nodup_cons] at hnodup
        rw [(parseOrderIdentifier_eq_ok_iff hlib).2 hdenotes]
        have hseen : authz.key ∉ seen := hfresh authz (List.mem_cons_self ..)
        show (if authz.key ∈ seen then _ else _) = _
        rw [if_neg hseen]
        refine (ih _ _ _).2 ⟨parsed, by simp, hall, hnodup.2, ?_⟩
        intro a ha hmem
        rcases List.mem_cons.1 hmem with hkey | hmem
        · exact hnodup.1 (List.mem_map.2 ⟨a, ha, hkey⟩)
        · exact hfresh a (List.mem_cons_of_mem _ ha) hmem

theorem key_mem_iff {id : Identifier} {a : AuthzIdentifier} (hdenotes : Denotes id a)
    {ids : List Identifier} {parsed : List AuthzIdentifier}
    (hall : List.Forall₂ Denotes ids parsed) :
    a.key ∈ parsed.map AuthzIdentifier.key ↔ ∃ id' ∈ ids, Same id id' := by
  induction hall with
  | nil => simp
  | cons hdenotes' _ ih =>
    rw [List.map_cons, List.mem_cons, key_eq_iff hdenotes hdenotes', ih]
    simp

/-- Keys differ where identifiers do. -/
theorem nodup_key_iff {ids : List Identifier} {parsed : List AuthzIdentifier}
    (hall : List.Forall₂ Denotes ids parsed) :
    (parsed.map AuthzIdentifier.key).Nodup ↔ ids.Pairwise fun id id' => ¬ Same id id' := by
  induction hall with
  | nil => simp
  | cons hdenotes hall ih =>
    rw [List.map_cons, List.nodup_cons, List.pairwise_cons, ih, key_mem_iff hdenotes hall]
    simp

/-- **A list is accepted if and only if it has one to a hundred identifiers, no two of them the
same up to case, and each in the grammar.**  The authorizations are those the identifiers stand for,
in order.  Each has a challenge, and `dns-01` exactly where its name can be queried. -/
theorem validateOrderIdentifiers_iff (hlib : QueryNames nameFromAscii) (ids : List Identifier)
    (out : List AuthzIdentifier) :
    (validateOrderIdentifiers nameFromAscii ids = .ok out ↔
      (1 ≤ ids.length ∧ ids.length ≤ maxOrderIdentifiers) ∧
        ids.Pairwise (fun id id' => ¬ Same id id') ∧ List.Forall₂ Denotes ids out) ∧
      ∀ id a, Denotes id a → a.challengeTypes nameFromAscii ≠ [] ∧
        (a.idType = "dns" → ("dns-01" ∈ a.challengeTypes nameFromAscii ↔
          dns01QueryName nameFromAscii a.value = .ok ())) := by
  constructor
  · unfold validateOrderIdentifiers
    constructor
    · intro h
      split_ifs at h with hnil hlong
      obtain ⟨parsed, rfl, hall, hnodup, -⟩ := (loop_eq_ok_iff hlib _ _ _ _).1 h
      exact ⟨⟨List.length_pos_iff.2 hnil, Nat.le_of_not_lt hlong⟩, (nodup_key_iff hall).1 hnodup,
        hall⟩
    · rintro ⟨⟨hpos, hle⟩, hpairwise, hall⟩
      rw [if_neg (List.length_pos_iff.1 hpos), if_neg (Nat.not_lt.2 hle)]
      exact (loop_eq_ok_iff hlib _ _ _ _).2
        ⟨out, rfl, hall, (nodup_key_iff hall).2 hpairwise, by simp⟩
  · intro id a h
    cases h with
    | dns labels hhost hsize =>
      have hchallenges :
          (⟨"dns", name labels, false⟩ : AuthzIdentifier).challengeTypes nameFromAscii
          = match dns01QueryName nameFromAscii (name labels) with
            | .error _ => dnsChallengesNoDns01
            | .ok _ => dnsChallenges := rfl
      rw [hchallenges]
      cases hquery : dns01QueryName nameFromAscii (name labels) with
      | error e =>
        have hno : "dns-01" ∉ dnsChallengesNoDns01 := by decide
        exact ⟨List.cons_ne_nil _ _, fun _ => ⟨fun h => absurd h hno, fun h => by cases h⟩⟩
      | ok u =>
        have hyes : "dns-01" ∈ dnsChallenges := by decide
        exact ⟨List.cons_ne_nil _ _, fun _ => ⟨fun _ => rfl, fun _ => hyes⟩⟩
    | wildcard labels hhost htwo hsize hquery =>
      have hsizeBase : (name labels).utf8ByteSize ≤ maxDomainLen :=
        (utf8ByteSize_le_append wildcardPrefix _).trans hsize
      have hok := (dns01QueryName_name hlib hhost hsizeBase).2 hquery
      exact ⟨by simp [AuthzIdentifier.challengeTypes, wildcardChallenges],
        fun _ => ⟨fun _ => hok, fun _ =>
          by simp [AuthzIdentifier.challengeTypes, wildcardChallenges]⟩⟩
    | ip address hembeds =>
      refine ⟨by simp [AuthzIdentifier.challengeTypes, ipChallenges], fun h => ?_⟩
      have htype : "ip" = "dns" := h
      exact absurd htype (by decide)

namespace Instance

/-- Take a name of labels of 1 to 63 octets that has at most 255 on the wire; it is fully qualified
if it ends in a dot. -/
def fromAscii (s : String) : Option Bool :=
  let pieces := splitCharList '.' s.toList
  let fqdn := pieces.getLast? = some []
  let labels := if fqdn then pieces.dropLast else pieces
  if (labels.all fun label => 1 ≤ label.length && label.length ≤ maxLabelLen) ∧
      wireLength labels ≤ 255 then some fqdn
  else none

theorem queryNames_fromAscii : QueryNames fromAscii := by
  intro labels hne hldh
  have hpieces : splitCharList '.' (acmeChallengeLabel ++ "." ++ name labels ++ ".").toList =
      (acmeChallengeLabel.toList :: labels) ++ [[]] := by
    have htext : (acmeChallengeLabel ++ "." ++ name labels ++ ".").toList =
        dotted ((acmeChallengeLabel.toList :: labels) ++ [[]]) := by
      obtain ⟨first, rest, rfl⟩ := List.exists_cons_of_ne_nil hne
      have hdot : ".".toList = ['.'] := rfl
      simp only [String.toList_append, name, String.toList_ofList, dotted, hdot, List.cons_append,
        List.flatMap_cons, List.flatMap_append, List.flatMap_nil, List.append_nil,
        List.append_assoc, List.nil_append]
    rw [htext]
    refine splitCharList_dotted (List.append_ne_nil_of_left_ne_nil (List.cons_ne_nil _ _) _) ?_
    intro label hlabel hmem
    rcases List.mem_append.1 hlabel with hlabel | hlabel
    · rcases List.mem_cons.1 hlabel with rfl | hlabel
      · exact absurd hmem (by decide)
      · exact not_ldh_dot ((hldh label hlabel).ldh _ hmem)
    · rw [List.mem_singleton.1 hlabel] at hmem
      cases hmem
  have hlengths : ((acmeChallengeLabel.toList :: labels).all fun label =>
      1 ≤ label.length && label.length ≤ maxLabelLen) = true := by
    rw [List.all_cons, List.all_eq_true.2, Bool.and_true]
    · rfl
    · intro label hlabel
      have hpos := List.length_pos_iff.2 (hldh label hlabel).ne_nil
      have hle := (hldh label hlabel).length_le
      simp only [Bool.and_eq_true, decide_eq_true_eq]
      exact ⟨hpos, hle⟩
  unfold fromAscii
  simp only [hpieces, List.getLast?_concat, List.dropLast_concat, decide_true, if_true, hlengths,
    true_and]

end Instance

theorem validateOrderIdentifiers_iff_two :
    List.Forall₂ Denotes [⟨"dns", "*.Example.com"⟩, ⟨"ip", "2001:db8::1"⟩]
      [⟨"dns", "Example.com", true⟩, ⟨"ip", "2001:db8::1", false⟩] :=
  ((validateOrderIdentifiers_iff Instance.queryNames_fromAscii
    [⟨"dns", "*.Example.com"⟩, ⟨"ip", "2001:db8::1"⟩]
    [⟨"dns", "Example.com", true⟩, ⟨"ip", "2001:db8::1", false⟩]).1.1 (by decide +kernel)).2.2

end Ostrich.Acme.Grammar
