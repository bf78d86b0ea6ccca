import Ostrich.Lib.DerWalk
import Ostrich.X509.Certificate

/-!
# The issuer of a CA's certificates and CRLs

The issuer is read off the subject of the CA certificate, through a `DistinguishedName`, and written
anew (`dnToName`).  `rebuild_eq_ok` says what is written: one RDN for each of seven fields
(`rebuiltName`).  `issuer_chains_iff`: this is the subject exactly if the subject has the same form
already (`BuilderShape`), or is refused; `commonNameFirst_unchained` is a subject with its RDNs in
another order.
-/

namespace Ostrich.X509

open Der Text

/-! ### Reading a name -/

/-- `as_str` of x509-parser reads the string types that are UTF-8 or a part of it. -/
structure ReadsStrings (asStr : UInt8 → List UInt8 → Except String String) : Prop where
  ok_iff : ∀ tag content s,
    asStr tag content = .ok s ↔ tag ∈ [0x0C, 0x12, 0x13, 0x16] ∧ utf8 s = content

/-- A field of a structured name, as it is written. -/
structure DnField where
  oid : String
  tag : UInt8
  printable : Bool
  get : DistinguishedName → Option String

/-- The fields, in the order in which they are written. -/
def dnFields : List DnField :=
  [⟨"2.5.4.6", 0x13, true, DistinguishedName.country⟩,
    ⟨"2.5.4.8", 0x0C, false, DistinguishedName.stateOrProvince⟩,
    ⟨"2.5.4.7", 0x0C, false, DistinguishedName.locality⟩,
    ⟨"2.5.4.10", 0x0C, false, DistinguishedName.organization⟩,
    ⟨"2.5.4.11", 0x0C, false, DistinguishedName.organizationalUnit⟩,
    ⟨"2.5.4.3", 0x0C, false, DistinguishedName.commonName⟩,
    ⟨"2.5.4.5", 0x13, true, DistinguishedName.serialNumber⟩]

/-- The last attribute of a type. -/
def lastOf (oid : String) (attrs : List AttributeTypeAndValue) : Option AttributeTypeAndValue :=
  (attrs.filter fun a => a.oid = oid).getLast?

/-- The value can be read as a string. -/
def Readable (a : AttributeTypeAndValue) : Prop :=
  a.tag ∈ ([0x0C, 0x12, 0x13, 0x16] : List UInt8) ∧ ∃ s, utf8 s = a.content

theorem get_set {f : DnField} (hf : f ∈ dnFields) (dn : DistinguishedName) (oid value : String) :
    f.get (dn.set oid value) = if oid = f.oid then some value else f.get dn := by
  simp only [dnFields, List.mem_cons, List.not_mem_nil, or_false] at hf
  rcases hf with rfl | rfl | rfl | rfl | rfl | rfl | rfl <;>
    (unfold DistinguishedName.set; split <;> simp_all)

theorem get_empty {f : DnField} (hf : f ∈ dnFields) : f.get {} = none := by
  simp only [dnFields, List.mem_cons, List.not_mem_nil, or_false] at hf
  rcases hf with rfl | rfl | rfl | rfl | rfl | rfl | rfl <;> rfl

theorem lastOf_cons (oid : String) (a : AttributeTypeAndValue)
    (attrs : List AttributeTypeAndValue) :
    lastOf oid (a :: attrs) = if a.oid = oid then some ((lastOf oid attrs).getD a)
      else lastOf oid attrs := by
  unfold lastOf
  rw [List.filter_cons]
  by_cases h : a.oid = oid
  · rw [if_pos (decide_eq_true h), if_pos h, List.getLast?_cons]
  · rw [if_neg (by simpa using h), if_neg h]

section

variable {asStr : UInt8 → List UInt8 → Except String String}

/-- An attribute as x509-parser gives it. -/
def dnAttribute (asStr : UInt8 → List UInt8 → Except String String) (a : AttributeTypeAndValue) :
    DnAttribute := ⟨a.oid, asStr a.tag a.content⟩

theorem rdns_parsedName (display : String) (name : RdnSequence) :
    (parsedName asStr display name).rdns.flatten = name.flatten.map (dnAttribute asStr) :=
  List.map_flatten.symm

/-- **What the loop over the attributes leaves**: each field has the value of the last attribute of
its type. -/
theorem loop_eq_ok (hasStr : ReadsStrings asStr) : ∀ {attrs : List AttributeTypeAndValue}
    {dn dn' : DistinguishedName},
    parseDistinguishedName.loop (attrs.map (dnAttribute asStr)) dn = .ok dn' →
    (∀ a ∈ attrs, Readable a) ∧ ∀ f ∈ dnFields, (f.get dn').map utf8 =
      ((lastOf f.oid attrs).map (·.content)).or ((f.get dn).map utf8) := by
  intro attrs
  induction attrs with
  | nil =>
    intro dn dn' h
    obtain rfl := Except.ok.inj h
    exact ⟨fun _ ha => absurd ha List.not_mem_nil, fun _ _ => rfl⟩
  | cons a attrs ih =>
    intro dn dn' h
    obtain ⟨value, hvalue, h⟩ := bind_eq_ok h
    have hread : a.tag ∈ _ ∧ utf8 value = a.content :=
      (hasStr.ok_iff _ _ _).mp (parseErr_eq_ok hvalue)
    obtain ⟨hreadable, hfields⟩ := ih h
    -- this value stays only where no later attribute has the same type
    refine ⟨List.forall_mem_cons.mpr ⟨⟨hread.1, value, hread.2⟩, hreadable⟩, fun f hf => ?_⟩
    rw [hfields f hf, lastOf_cons, get_set hf]
    show _ = Option.or (Option.map _ (if a.oid = f.oid then _ else _)) _
    have hset : (dnAttribute asStr a).oid = a.oid := rfl
    rw [hset]
    by_cases hoid : a.oid = f.oid
    · rw [if_pos hoid, if_pos hoid]
      cases lastOf f.oid attrs with
      | none => exact congrArg some hread.2
      | some b => rfl
    · rw [if_neg hoid, if_neg hoid]

/-- The loop ends on attributes that can be read. -/
theorem exists_loop (hasStr : ReadsStrings asStr) : ∀ {attrs : List AttributeTypeAndValue}
    (_ : ∀ a ∈ attrs, Readable a) (dn : DistinguishedName),
    ∃ dn', parseDistinguishedName.loop (attrs.map (dnAttribute asStr)) dn = .ok dn' := by
  intro attrs
  induction attrs with
  | nil => exact fun _ dn => ⟨dn, rfl⟩
  | cons a attrs ih =>
    intro hreadable dn
    obtain ⟨⟨htag, s, hs⟩, hrest⟩ := List.forall_mem_cons.mp hreadable
    have hvalue : asStr a.tag a.content = .ok s := (hasStr.ok_iff _ _ _).mpr ⟨htag, hs⟩
    obtain ⟨dn', hdn'⟩ := ih hrest (dn.set a.oid s)
    refine ⟨dn', ?_⟩
    rw [List.map_cons, parseDistinguishedName.loop]
    show (parseErr _ (asStr a.tag a.content) >>= _) = _
    rw [hvalue]
    exact hdn'

end

/-! ### Writing a name -/

/-- The RDN that is written for a field. -/
def written (oid : String) (tag : UInt8) (content : Option (List UInt8)) : RdnSequence :=
  (content.map fun content => [⟨oid, tag, content⟩]).toList

theorem rdnOf_utf8 (label oid : String) (tag : UInt8) (field : Option String) :
    rdnOf label oid tag utf8StringNew field = .ok (written oid tag (field.map utf8)) := by
  cases field <;> rfl

theorem rdnOf_printable_eq_ok {derError label oid : String} {tag : UInt8} {field : Option String}
    {name : RdnSequence} : rdnOf label oid tag (printableStringNew derError) field = .ok name ↔
      (∀ content, field.map utf8 = some content → content.all isPrintable = true) ∧
        name = written oid tag (field.map utf8) := by
  cases field with
  | none =>
    constructor
    · intro h
      obtain rfl := Except.ok.inj h
      exact ⟨fun _ hcontent => (by cases hcontent), rfl⟩
    · rintro ⟨-, rfl⟩
      rfl
  | some value =>
    have hvalue : rdnOf label oid tag (printableStringNew derError) (some value) =
        ((if (utf8 value).all isPrintable then .ok (utf8 value) else .error derError :
          Except String (List UInt8)).mapError _).map fun content => [[⟨oid, tag, content⟩]] := rfl
    rw [hvalue]
    split_ifs with hall
    · constructor
      · intro h
        obtain rfl := Except.ok.inj h
        refine ⟨fun content hcontent => ?_, rfl⟩
        obtain rfl := Option.some.inj hcontent
        exact hall
      · rintro ⟨-, rfl⟩
        rfl
    · constructor
      · intro h
        cases h
      · rintro ⟨hprintable, -⟩
        exact absurd (hprintable _ rfl) hall

theorem dnToName_eq_ok {derError : String} {dn : DistinguishedName} {issuer : RdnSequence} :
    dnToName derError dn = .ok issuer ↔
      (∀ f ∈ dnFields, f.printable = true → ∀ content, (f.get dn).map utf8 = some content →
        content.all isPrintable = true) ∧
      issuer = dnFields.flatMap fun f => written f.oid f.tag ((f.get dn).map utf8) := by
  have hwritten : (dnFields.flatMap fun f => written f.oid f.tag ((f.get dn).map utf8)) =
      written "2.5.4.6" 0x13 (dn.country.map utf8) ++
      (written "2.5.4.8" 0x0C (dn.stateOrProvince.map utf8) ++
      (written "2.5.4.7" 0x0C (dn.locality.map utf8) ++
      (written "2.5.4.10" 0x0C (dn.organization.map utf8) ++
      (written "2.5.4.11" 0x0C (dn.organizationalUnit.map utf8) ++
      (written "2.5.4.3" 0x0C (dn.commonName.map utf8) ++
        written "2.5.4.5" 0x13 (dn.serialNumber.map utf8)))))) := by
    simp [dnFields]
  rw [hwritten]
  unfold dnToName
  simp only [rdnOf_utf8]
  constructor
  · intro h
    obtain ⟨c, hc, h⟩ := bind_eq_ok h
    obtain ⟨st, hst, h⟩ := bind_eq_ok h
    obtain ⟨l, hl, h⟩ := bind_eq_ok h
    obtain ⟨o, ho, h⟩ := bind_eq_ok h
    obtain ⟨ou, hou, h⟩ := bind_eq_ok h
    obtain ⟨cn, hcn, h⟩ := bind_eq_ok h
    obtain ⟨sn, hsn, h⟩ := bind_eq_ok h
    obtain rfl := Except.ok.inj hst
    obtain rfl := Except.ok.inj hl
    obtain rfl := Except.ok.inj ho
    obtain rfl := Except.ok.inj hou
    obtain rfl := Except.ok.inj hcn
    obtain ⟨hcountry, rfl⟩ := rdnOf_printable_eq_ok.mp hc
    obtain ⟨hserial, rfl⟩ := rdnOf_printable_eq_ok.mp hsn
    refine ⟨fun f hf hprintable => ?_, (Except.ok.inj h).symm⟩
    simp only [dnFields, List.mem_cons, List.not_mem_nil, or_false] at hf
    rcases hf with rfl | rfl | rfl | rfl | rfl | rfl | rfl
    · exact hcountry
    · cases hprintable
    · cases hprintable
    · cases hprintable
    · cases hprintable
    · cases hprintable
    · exact hserial
  · rintro ⟨hprintable, rfl⟩
    have hcountry : rdnOf "country" "2.5.4.6" 0x13 (printableStringNew derError) dn.country =
        .ok (written "2.5.4.6" 0x13 (dn.country.map utf8)) :=
      rdnOf_printable_eq_ok.mpr ⟨hprintable ⟨"2.5.4.6", 0x13, true, DistinguishedName.country⟩
        (by simp [dnFields]) rfl, rfl⟩
    have hserial : rdnOf "serial number" "2.5.4.5" 0x13 (printableStringNew derError)
        dn.serialNumber = .ok (written "2.5.4.5" 0x13 (dn.serialNumber.map utf8)) :=
      rdnOf_printable_eq_ok.mpr ⟨hprintable ⟨"2.5.4.5", 0x13, true, DistinguishedName.serialNumber⟩
        (by simp [dnFields]) rfl, rfl⟩
    rw [hcountry, hserial]
    rfl

/-! ### The issuer of a CA -/

/-- The name that is written for a subject: one RDN for each field, with the last attribute of its
type. -/
def rebuiltName (attrs : List AttributeTypeAndValue) : RdnSequence :=
  dnFields.flatMap fun f => written f.oid f.tag ((lastOf f.oid attrs).map (·.content))

/-- The operation does not fail on a subject: its values can be read, and those that become
PrintableStrings can be written. -/
structure Accepted (subject : RdnSequence) : Prop where
  readable : ∀ a ∈ subject.flatten, Readable a
  printable : ∀ f ∈ dnFields, f.printable = true → ∀ a, lastOf f.oid subject.flatten = some a →
    a.content.all isPrintable = true

/-- **What is written for a subject.** -/
theorem rebuild_eq_ok {asStr : UInt8 → List UInt8 → Except String String}
    (hasStr : ReadsStrings asStr) {derError display : String} {text : Error → String}
    {subject issuer : RdnSequence} :
    ((parseDistinguishedName (parsedName asStr display subject)).mapError text >>=
      dnToName derError) = .ok issuer ↔
        Accepted subject ∧ issuer = rebuiltName subject.flatten := by
  have hparse : parseDistinguishedName (parsedName asStr display subject) =
      parseDistinguishedName.loop (subject.flatten.map (dnAttribute asStr)) {} := by
    unfold parseDistinguishedName
    rw [rdns_parsedName]
  rw [hparse]
  -- the fields of the structured name are the last values
  have hget {dn : DistinguishedName}
      (h : parseDistinguishedName.loop (subject.flatten.map (dnAttribute asStr)) {} = .ok dn) :
      ∀ f ∈ dnFields, (f.get dn).map utf8 = (lastOf f.oid subject.flatten).map (·.content) := by
    intro f hf
    rw [(loop_eq_ok hasStr h).2 f hf, get_empty hf]
    exact Option.or_none
  have hrebuilt {dn : DistinguishedName}
      (h : parseDistinguishedName.loop (subject.flatten.map (dnAttribute asStr)) {} = .ok dn) :
      (dnFields.flatMap fun f => written f.oid f.tag ((f.get dn).map utf8)) =
        rebuiltName subject.flatten := by
    unfold rebuiltName
    rw [List.flatMap_def, List.flatMap_def]
    refine congrArg List.flatten (List.map_congr_left fun f hf => ?_)
    rw [hget h f hf]
  constructor
  · intro h
    cases hloop : parseDistinguishedName.loop (subject.flatten.map (dnAttribute asStr)) {} with
    | error e =>
      rw [hloop] at h
      cases h
    | ok dn =>
      rw [hloop] at h
      obtain ⟨hprintable, rfl⟩ := dnToName_eq_ok.mp h
      refine ⟨⟨(loop_eq_ok hasStr hloop).1, fun f hf hp a ha => ?_⟩, hrebuilt hloop⟩
      refine hprintable f hf hp a.content ?_
      rw [hget hloop f hf, ha]
      rfl
  · rintro ⟨haccepted, rfl⟩
    obtain ⟨dn, hloop⟩ := exists_loop hasStr haccepted.readable {}
    rw [hloop]
    refine dnToName_eq_ok.mpr ⟨fun f hf hp content hcontent => ?_, (hrebuilt hloop).symm⟩
    rw [hget hloop f hf] at hcontent
    obtain ⟨a, ha, rfl⟩ := Option.map_eq_some_iff.mp hcontent
    exact haccepted.printable f hf hp a ha

/-! ### Names in the form that is written -/

/-- The name has the form that is written: RDNs of one attribute, of the known types, each at most
once and in their order, with their string types. -/
structure BuilderShape (name : RdnSequence) : Prop where
  single : ∀ rdn ∈ name, rdn.length = 1
  ordered : (name.flatten.map fun a => (a.oid, a.tag)).Sublist
    (dnFields.map fun f => (f.oid, f.tag))

theorem rebuiltName_eq_singles (attrs : List AttributeTypeAndValue) (fs : List DnField) :
    (fs.flatMap fun f => written f.oid f.tag ((lastOf f.oid attrs).map (·.content))) =
      (fs.filterMap fun f => (lastOf f.oid attrs).map fun a =>
        (⟨f.oid, f.tag, a.content⟩ : AttributeTypeAndValue)).map fun a => [a] := by
  induction fs with
  | nil => rfl
  | cons f fs ih =>
    rw [List.flatMap_cons, ih, List.filterMap_cons]
    cases lastOf f.oid attrs <;> rfl

theorem shape_rebuiltName (attrs : List AttributeTypeAndValue) :
    BuilderShape (rebuiltName attrs) := by
  unfold rebuiltName
  rw [rebuiltName_eq_singles]
  constructor
  · intro rdn hrdn
    obtain ⟨a, -, rfl⟩ := List.mem_map.mp hrdn
    rfl
  · have hflatten (l : List AttributeTypeAndValue) : (l.map fun a => [a]).flatten = l := by
      induction l with
      | nil => rfl
      | cons a l ih => rw [List.map_cons, List.flatten_cons, ih]; rfl
    rw [hflatten]
    generalize dnFields = fs
    induction fs with
    | nil => exact .slnil
    | cons f fs ih =>
      rw [List.filterMap_cons, List.map_cons]
      cases lastOf f.oid attrs with
      | none => exact ih.cons _
      | some a => exact ih.cons_cons _

theorem lastOf_of_not_mem {oid : String} {attrs : List AttributeTypeAndValue}
    (h : ∀ a ∈ attrs, a.oid ≠ oid) : lastOf oid attrs = none := by
  unfold lastOf
  rw [List.filter_eq_nil_iff.mpr fun a ha => by simpa using h a ha]
  rfl

/-- Attributes in the order of the fields are found again. -/
theorem found_of_sublist : ∀ {fs : List DnField} {attrs : List AttributeTypeAndValue},
    (fs.map (·.oid)).Nodup →
    (attrs.map fun a => (a.oid, a.tag)).Sublist (fs.map fun f => (f.oid, f.tag)) →
    (fs.filterMap fun f => (lastOf f.oid attrs).map fun a =>
      (⟨f.oid, f.tag, a.content⟩ : AttributeTypeAndValue)) = attrs := by
  intro fs
  induction fs with
  | nil =>
    intro attrs _ h
    have hnil := List.map_eq_nil_iff.mp (List.sublist_nil.mp h)
    rw [hnil]
    rfl
  | cons f fs ih =>
    intro attrs hnodup h
    obtain ⟨hnotin, hnodup⟩ := List.nodup_cons.mp hnodup
    have hnotin : f.oid ∉ fs.map (·.oid) := hnotin
    -- an attribute that comes later is not of the type of this field
    have hlater {attrs : List AttributeTypeAndValue}
        (h : (attrs.map fun a => (a.oid, a.tag)).Sublist (fs.map fun f => (f.oid, f.tag))) :
        ∀ a ∈ attrs, a.oid ≠ f.oid := by
      intro a ha heq
      obtain ⟨f', hf', hpair⟩ := List.mem_map.mp (h.subset (List.mem_map_of_mem ha))
      rw [← heq, ← (Prod.mk.inj hpair).1] at hnotin
      exact hnotin (List.mem_map_of_mem hf')
    rw [List.map_cons] at h
    cases hattrs : attrs with
    | nil =>
      rw [List.filterMap_eq_nil_iff.mpr]
      intro f' _
      rfl
    | cons a rest =>
      subst hattrs
      rw [List.map_cons] at h
      rcases List.cons_sublist_cons'.mp h with hskip | ⟨hkey, hrest⟩
      · -- no attribute is of this field
        have hskip : ((a :: rest).map fun a => (a.oid, a.tag)).Sublist
            (fs.map fun f => (f.oid, f.tag)) := hskip
        rw [List.filterMap_cons, lastOf_of_not_mem (hlater hskip)]
        exact ih hnodup hskip
      · -- the attribute is of this field, and none behind it is
        obtain ⟨hoid, htag⟩ := Prod.mk.inj hkey
        have hfirst : lastOf f.oid (a :: rest) = some a := by
          rw [lastOf_cons, if_pos hoid, lastOf_of_not_mem (hlater hrest)]
          rfl
        rw [List.filterMap_cons, hfirst]
        show (⟨f.oid, f.tag, a.content⟩ : AttributeTypeAndValue) :: _ = _
        have hself : (⟨f.oid, f.tag, a.content⟩ : AttributeTypeAndValue) = a := by
          rw [← hoid, ← htag]
        rw [hself]
        refine congrArg (a :: ·) (Eq.trans ?_ (ih hnodup hrest))
        refine List.filterMap_congr fun f' hf' => ?_
        have hne : a.oid ≠ f'.oid := by
          intro heq
          rw [← hoid, heq] at hnotin
          exact hnotin (List.mem_map_of_mem hf')
        rw [lastOf_cons, if_neg hne]

theorem nodup_dnFields : (dnFields.map (·.oid)).Nodup := by decide

/-- **A name in this form is written as it is.** -/
theorem rebuiltName_of_shape {name : RdnSequence} (h : BuilderShape name) :
    rebuiltName name.flatten = name := by
  unfold rebuiltName
  rw [rebuiltName_eq_singles, found_of_sublist nodup_dnFields h.ordered]
  have hsingle := h.single
  clear h
  induction name with
  | nil => rfl
  | cons rdn name ih =>
    obtain ⟨hrdn, hname⟩ := List.forall_mem_cons.mp hsingle
    obtain ⟨a, rfl⟩ := List.length_eq_one_iff.mp hrdn
    rw [List.flatten_cons, List.map_append, ih hname]
    rfl

/-! ### The DER of names -/

section

variable {oidContent : String → List UInt8}

theorem attributeDer_append_inj (hoid : Function.Injective oidContent)
    {a b : AttributeTypeAndValue} {rest rest' : List UInt8}
    (ha : (attributeDer oidContent a).length < 2 ^ 32)
    (hb : (attributeDer oidContent b).length < 2 ^ 32)
    (h : attributeDer oidContent a ++ rest = attributeDer oidContent b ++ rest') :
    a = b ∧ rest = rest' := by
  have hcontent (c : AttributeTypeAndValue) (hc : (attributeDer oidContent c).length < 2 ^ 32) :
      (tlv 0x06 (oidContent c.oid)).length + (tlv c.tag c.content).length < 2 ^ 32 := by
    have := length_le_tlv 0x30 (tlv 0x06 (oidContent c.oid) ++ tlv c.tag c.content)
    rw [List.length_append] at this
    exact Nat.lt_of_le_of_lt this hc
  -- all contents are short, so that the three elements can be taken apart
  have hcontentA := hcontent a ha
  have hcontentB := hcontent b hb
  have hoidA := length_le_tlv 0x06 (oidContent a.oid)
  have hoidB := length_le_tlv 0x06 (oidContent b.oid)
  have hvalueA := length_le_tlv a.tag a.content
  have hvalueB := length_le_tlv b.tag b.content
  obtain ⟨-, hinner, hrest⟩ := tlv_append_inj (by rw [List.length_append]; omega)
    (by rw [List.length_append]; omega) h
  obtain ⟨-, hoids, hvalues⟩ := tlv_append_inj (by omega) (by omega) hinner
  obtain ⟨htag, hvalue⟩ := tlv_inj (by omega) (by omega) hvalues
  have hab : a = b := by
    cases a
    cases b
    rw [AttributeTypeAndValue.mk.injEq]
    exact ⟨hoid hoids, htag, hvalue⟩
  exact ⟨hab, hrest⟩

/-- **The DER determines the name**. -/
theorem nameDer_inj (hoid : Function.Injective oidContent) {name name' : RdnSequence}
    (hlen : (nameDer oidContent name).length < 2 ^ 32)
    (h : nameDer oidContent name = nameDer oidContent name') : name = name' := by
  have hlen' : (nameDer oidContent name').length < 2 ^ 32 := h ▸ hlen
  have hcontent (n : RdnSequence) (hn : (nameDer oidContent n).length < 2 ^ 32) :
      (n.flatMap fun rdn => tlv 0x31 (rdn.flatMap (attributeDer oidContent))).length < 2 ^ 32 :=
    Nat.lt_of_le_of_lt (length_le_tlv _ _) hn
  -- every RDN is a part of the name
  have hrdn (n : RdnSequence) (hn : (nameDer oidContent n).length < 2 ^ 32) : ∀ rdn ∈ n,
      (rdn.flatMap (attributeDer oidContent)).length < 2 ^ 32 := by
    intro rdn hmem
    have hpart := length_le_flatMap
      (fun rdn => tlv 0x31 (rdn.flatMap (attributeDer oidContent))) hmem
    have hset := length_le_tlv 0x31 (rdn.flatMap (attributeDer oidContent))
    have := hcontent n hn
    omega
  obtain ⟨-, hsets⟩ := tlv_inj (hcontent name hlen) (hcontent name' hlen') h
  refine flatMap_inj (P := fun rdn => (rdn.flatMap (attributeDer oidContent)).length < 2 ^ 32)
    ?_ (fun _ => List.cons_ne_nil _ _) (hrdn name hlen) (hrdn name' hlen') hsets
  intro rdn rdn' rest rest' hr hr' hset
  obtain ⟨-, hattrs, hrest⟩ := tlv_append_inj hr hr' hset
  refine ⟨flatMap_inj (P := fun a => (attributeDer oidContent a).length < 2 ^ 32) ?_
    (fun _ => List.cons_ne_nil _ _) ?_ ?_ hattrs, hrest⟩
  · intro a b rest rest' ha hb hab
    exact attributeDer_append_inj hoid ha hb hab
  · exact fun a ha => Nat.lt_of_le_of_lt (length_le_flatMap _ ha) hr
  · exact fun a ha => Nat.lt_of_le_of_lt (length_le_flatMap _ ha) hr'

theorem nameDer_rebuiltName_iff (hoid : Function.Injective oidContent) {subject : RdnSequence}
    (hlen : (nameDer oidContent subject).length < 2 ^ 32) :
    nameDer oidContent (rebuiltName subject.flatten) = nameDer oidContent subject ↔
      BuilderShape subject := by
  constructor
  · intro h
    rw [nameDer_inj hoid hlen h.symm]
    exact shape_rebuiltName _
  · intro h
    rw [rebuiltName_of_shape h]

end

/-! ### Name chaining -/

/-- The issuer in every certificate and every CRL of the CA is its subject. -/
def Chains (oidContent : String → List UInt8)
    (certificateFromDer : List UInt8 → Except String X509Certificate) (derError : String)
    (caCertificate : List UInt8) (subject : RdnSequence) : Prop :=
  ∀ issuer, certificateIssuer certificateFromDer derError caCertificate = .ok issuer ∨
    crlIssuer certificateFromDer derError caCertificate = .ok issuer →
    nameDer oidContent issuer = nameDer oidContent subject

/-- The certificate of the CA, as x509-parser reads it, has this subject. -/
def HasSubject (asStr : UInt8 → List UInt8 → Except String String)
    (certificateFromDer : List UInt8 → Except String X509Certificate)
    (caCertificate : List UInt8) (subject : RdnSequence) : Prop :=
  ∃ display sans, certificateFromDer caCertificate = .ok ⟨parsedName asStr display subject, sans⟩

theorem parseSubjectDn_eq {asStr : UInt8 → List UInt8 → Except String String}
    {certificateFromDer : List UInt8 → Except String X509Certificate} {caCertificate : List UInt8}
    {subject : RdnSequence} (h : HasSubject asStr certificateFromDer caCertificate subject) :
    ∃ display, parseSubjectDn certificateFromDer caCertificate =
      parseDistinguishedName (parsedName asStr display subject) := by
  obtain ⟨display, sans, hcert⟩ := h
  refine ⟨display, ?_⟩
  unfold parseSubjectDn
  rw [hcert]
  rfl

/-- Both issuers are written in one way; they differ in the text of an error. -/
theorem issuer_eq_ok {asStr : UInt8 → List UInt8 → Except String String}
    (hasStr : ReadsStrings asStr)
    {certificateFromDer : List UInt8 → Except String X509Certificate} {derError : String}
    {caCertificate : List UInt8} {subject : RdnSequence} {text : Error → String}
    (hsubject : HasSubject asStr certificateFromDer caCertificate subject) {issuer : RdnSequence} :
    ((parseSubjectDn certificateFromDer caCertificate).mapError text >>= dnToName derError) =
      .ok issuer ↔ Accepted subject ∧ issuer = rebuiltName subject.flatten := by
  obtain ⟨display, hparse⟩ := parseSubjectDn_eq hsubject
  rw [hparse]
  exact rebuild_eq_ok hasStr

/-- **The names chain if and only if the subject is refused or has the form that is written.**  The
`der` crate has no longer names than these. -/
theorem issuer_chains_iff {asStr : UInt8 → List UInt8 → Except String String}
    (hasStr : ReadsStrings asStr) {oidContent : String → List UInt8}
    (hoid : Function.Injective oidContent)
    {certificateFromDer : List UInt8 → Except String X509Certificate} (derError : String)
    {caCertificate : List UInt8} {subject : RdnSequence}
    (hsubject : HasSubject asStr certificateFromDer caCertificate subject)
    (hlen : (nameDer oidContent subject).length < 2 ^ 28) :
    Chains oidContent certificateFromDer derError caCertificate subject ↔
      ¬ Accepted subject ∨ BuilderShape subject := by
  have hlen : (nameDer oidContent subject).length < 2 ^ 32 := by omega
  constructor
  · intro h
    by_cases haccepted : Accepted subject
    · have hequal := h _ (.inl ((issuer_eq_ok hasStr hsubject).mpr ⟨haccepted, rfl⟩))
      exact .inr ((nameDer_rebuiltName_iff hoid hlen).mp hequal)
    · exact .inl haccepted
  · rintro h issuer hor
    obtain ⟨haccepted, rfl⟩ : Accepted subject ∧ issuer = rebuiltName subject.flatten :=
      hor.elim (issuer_eq_ok hasStr hsubject).mp (issuer_eq_ok hasStr hsubject).mp
    exact (nameDer_rebuiltName_iff hoid hlen).mpr (h.resolve_left (not_not_intro haccepted))

/-! ### Two subjects -/

/-- `as_str` on the string types that are UTF-8 or a part of it. -/
def readString (tag : UInt8) (content : List UInt8) : Except String String :=
  if tag ∈ [0x0C, 0x12, 0x13, 0x16] then
    match String.fromUTF8? ⟨content.toArray⟩ with
    | some s => .ok s
    | none => .error "invalid attributes"
  else .error "unexpected tag"

theorem readsStrings_readString : ReadsStrings readString where
  ok_iff tag content s := by
    unfold readString
    by_cases htag : tag ∈ [0x0C, 0x12, 0x13, 0x16]
    · rw [if_pos htag]
      have hutf8 : String.fromUTF8? ⟨content.toArray⟩ = some s ↔ utf8 s = content := by
        unfold String.fromUTF8?
        constructor
        · intro h
          split_ifs at h with hvalid
          obtain rfl := Option.some.inj h
          rfl
        · rintro rfl
          have hbytes : (⟨(utf8 s).toArray⟩ : ByteArray) = s.toByteArray := rfl
          rw [hbytes, dif_pos s.isValidUTF8]
          rfl
      rw [← hutf8]
      cases String.fromUTF8? ⟨content.toArray⟩ <;> simp [htag]
    · rw [if_neg htag]
      exact ⟨fun h => (by cases h), fun h => absurd h.1 htag⟩

/-- The content octets of the OIDs of the attribute types that are written. -/
def attributeTypes : List (String × List UInt8) :=
  [("2.5.4.6", [0x55, 0x04, 0x06]), ("2.5.4.8", [0x55, 0x04, 0x08]),
    ("2.5.4.7", [0x55, 0x04, 0x07]), ("2.5.4.10", [0x55, 0x04, 0x0A]),
    ("2.5.4.11", [0x55, 0x04, 0x0B]), ("2.5.4.3", [0x55, 0x04, 0x03]),
    ("2.5.4.5", [0x55, 0x04, 0x05])]

/-- The content octets of an OID; types that are not written are told apart by their text. -/
def oidOctets (oid : String) : List UInt8 :=
  (attributeTypes.lookup oid).getD (0xFF :: utf8 oid)

theorem mem_attributeTypes {oid : String} {octets : List UInt8}
    (h : attributeTypes.lookup oid = some octets) : (oid, octets) ∈ attributeTypes := by
  obtain ⟨before, after, hsplit, -⟩ := List.lookup_eq_some_iff.mp h
  rw [hsplit]
  exact List.mem_append_right _ List.mem_cons_self

theorem oidOctets_injective : Function.Injective oidOctets := by
  have hhead : ∀ entry ∈ attributeTypes, entry.2.head? = some 0x55 := by decide
  have hdistinct : ∀ entry ∈ attributeTypes, ∀ entry' ∈ attributeTypes,
      entry.2 = entry'.2 → entry.1 = entry'.1 := by decide
  intro oid oid' h
  unfold oidOctets at h
  cases hfound : attributeTypes.lookup oid with
  | some octets =>
    have hmem := mem_attributeTypes hfound
    rw [hfound] at h
    cases hfound' : attributeTypes.lookup oid' with
    | some octets' =>
      rw [hfound'] at h
      exact hdistinct _ hmem _ (mem_attributeTypes hfound') h
    | none =>
      rw [hfound'] at h
      have hoctets : octets = 0xFF :: utf8 oid' := h
      have := hhead _ hmem
      rw [hoctets] at this
      cases this
  | none =>
    rw [hfound] at h
    cases hfound' : attributeTypes.lookup oid' with
    | some octets' =>
      rw [hfound'] at h
      have hoctets : 0xFF :: utf8 oid = octets' := h
      have := hhead _ (mem_attributeTypes hfound')
      rw [← hoctets] at this
      cases this
    | none =>
      rw [hfound'] at h
      exact utf8_injective (List.cons.inj h).2

/-- A subject in the form that is written: `C=US`, then `CN=Root`. -/
def countryFirst : RdnSequence :=
  [[⟨"2.5.4.6", 0x13, [0x55, 0x53]⟩], [⟨"2.5.4.3", 0x0C, [0x52, 0x6F, 0x6F, 0x74]⟩]]

/-- The same RDNs in the other order. -/
def commonNameFirst : RdnSequence :=
  [[⟨"2.5.4.3", 0x0C, [0x52, 0x6F, 0x6F, 0x74]⟩], [⟨"2.5.4.6", 0x13, [0x55, 0x53]⟩]]

/-- The algorithm identifier of Ed25519. -/
def ed25519Identifier : List UInt8 := tlv 0x30 (tlv 0x06 [0x2B, 0x65, 0x70])

/-- A self-signed certificate with a subject. -/
def certificateOf (subject : RdnSequence) : List UInt8 :=
  let name := nameDer oidOctets subject
  let validity := tlv 0x30 (tlv 0x17 (utf8 "250101000000Z") ++ tlv 0x17 (utf8 "350101000000Z"))
  let spki := tlv 0x30 (ed25519Identifier ++ tlv 0x03 (0x00 :: List.replicate 32 0x2A))
  let tbs := tlv 0x30 (tlv 0xA0 (tlv 0x02 [0x02]) ++ (tlv 0x02 [0x01] ++ (ed25519Identifier ++
    (name ++ (validity ++ (name ++ spki))))))
  tlv 0x30 (tbs ++ (ed25519Identifier ++ tlv 0x03 (0x00 :: List.replicate 64 0x2A)))

/-- x509-parser on this certificate. -/
def readCertificateOf (subject : RdnSequence) (display : String) (der : List UInt8) :
    Except String X509Certificate :=
  if der = certificateOf subject then .ok ⟨parsedName readString display subject, []⟩
  else .error "Parsing Error"

theorem hasSubject_certificateOf (subject : RdnSequence) (display : String) :
    HasSubject readString (readCertificateOf subject display) (certificateOf subject) subject :=
  ⟨display, [], if_pos rfl⟩

theorem countryFirst_chains :
    Chains oidOctets (readCertificateOf countryFirst "C=US, CN=Root")
      "malformed ASN.1 DER value for PrintableString" (certificateOf countryFirst)
      countryFirst := by
  refine (issuer_chains_iff readsStrings_readString oidOctets_injective _
    (hasSubject_certificateOf countryFirst _) ?_).mpr (.inr ⟨?_, ?_⟩)
  · decide
  · decide
  · decide

theorem lastOf_mem {oid : String} {attrs : List AttributeTypeAndValue} {a : AttributeTypeAndValue}
    (h : lastOf oid attrs = some a) : a ∈ attrs :=
  (List.mem_filter.mp (List.mem_of_getLast? h)).1

theorem accepted_commonNameFirst : Accepted commonNameFirst where
  readable a ha := by
    obtain rfl | rfl : a = ⟨"2.5.4.3", 0x0C, [0x52, 0x6F, 0x6F, 0x74]⟩ ∨
        a = ⟨"2.5.4.6", 0x13, [0x55, 0x53]⟩ := by
      simpa [commonNameFirst] using ha
    · exact ⟨by decide, "Root", rfl⟩
    · exact ⟨by decide, "US", rfl⟩
  printable f _ _ a ha := by
    have hall : ∀ a ∈ commonNameFirst.flatten, a.content.all isPrintable = true := by decide
    exact hall a (lastOf_mem ha)

theorem commonNameFirst_unchained :
    ¬ Chains oidOctets (readCertificateOf commonNameFirst "CN=Root, C=US")
      "malformed ASN.1 DER value for PrintableString" (certificateOf commonNameFirst)
      commonNameFirst := by
  intro h
  have hequal := h _ (.inl ((issuer_eq_ok readsStrings_readString
    (hasSubject_certificateOf commonNameFirst _)).mpr ⟨accepted_commonNameFirst, rfl⟩))
  have hshape := (nameDer_rebuiltName_iff oidOctets_injective (by decide)).mp hequal
  have hordered := hshape.ordered
  revert hordered
  decide

end Ostrich.X509
