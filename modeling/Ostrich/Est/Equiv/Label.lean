import Ostrich.Est.Label

/-!
# The grammar of EST labels

`IsLabel number s type fields` is the grammar: `s`, without the white space around it, is `PT` and a
known profile type, followed by the fields, each kind at most once and each with an admissible
value; `number` reads the number of days.

* `parseLabel_eq_ok`: the parser accepts the labels whose number the library reads, and returns the
  values that are written;
* `grammarRule_iff`: it follows the grammar of decimal digits on every string but the labels that
  have a plus sign before the number.
-/

namespace Ostrich.Est.Label

open Text

/-! ### The grammar -/

/-- A field of a label, as it is written. -/
inductive Field where
  | AK (algo : KeyAlgo)
  | VP (value : String)
  | CC (code : String)

namespace Field

/-- The prefix of the segment. -/
def kind : Field → String
  | .AK _ => "AK"
  | .VP _ => "VP"
  | .CC _ => "CC"

/-- What follows the prefix. -/
def value : Field → String
  | .AK algo => algo.token
  | .VP value => value
  | .CC code => code

def text (f : Field) : String := f.kind ++ f.value

/-- The value is admissible; `number` reads the number of days. -/
def Ok (number : String → Option ℕ) : Field → Prop
  | .AK _ => True
  | .VP value => ∃ days, number value = some days ∧ 1 ≤ days ∧ days ≤ MAX_VALIDITY_DAYS
  | .CC code => code ≠ "" ∧ code.toList.length ≤ MAX_CCSA_LEN ∧ ∀ c ∈ code.toList, c.isAlphanum

end Field

/-- The text of a label. -/
def labelText (profileType : String) (fields : List Field) : String :=
  "PT" ++ profileType ++ String.join (fields.map fun f => "-" ++ f.text)

structure IsLabel (number : String → Option ℕ) (s profileType : String) (fields : List Field) :
    Prop where
  text : trim s = labelText profileType fields
  known : profileType ∈ knownProfileTypes
  ok : ∀ f ∈ fields, f.Ok number
  once : (fields.map Field.kind).Nodup

/-- The result holds the values that are written, and no others. -/
structure Reads (number : String → Option ℕ) (profileType : String) (fields : List Field)
    (label : ParsedLabel) : Prop where
  profileType : label.profileType = profileType
  keyAlgo : ∀ algo, label.keyAlgo = some algo ↔ .AK algo ∈ fields
  validityDays : ∀ days, label.validityDays = some days ↔
    ∃ value, .VP value ∈ fields ∧ number value = some days
  ccsa : ∀ code, label.ccsa = some code ↔ .CC code ∈ fields

/-- The fields of a result, in the order of the scheme. -/
def ParsedLabel.fields (label : ParsedLabel) : List Field :=
  (label.keyAlgo.map Field.AK).toList ++
    (label.validityDays.map fun days => Field.VP (toString days)).toList ++
    (label.ccsa.map Field.CC).toList

/-- The canonical text of a result. -/
def ParsedLabel.render (label : ParsedLabel) : String := labelText label.profileType label.fields

/-! ### Texts -/

theorem toList_labelText (profileType : String) (fields : List Field) :
    (labelText profileType fields).toList =
      ("PT" ++ profileType).toList ++ (fields.map fun f => f.text.toList).flatMap ('-' :: ·) := by
  unfold labelText
  rw [String.toList_append, String.toList_join]
  congr 1
  rw [List.flatMap_map, List.flatMap_map]
  congr 1
  funext f
  rw [String.toList_append]
  rfl

/-- What a field is written with: letters, digits and a plus sign. -/
def plain (c : Char) : Bool := c.isAlphanum || c = '+'

theorem toNat_of_plain {c : Char} (h : plain c) : c.toNat < 128 ∧ 33 ≤ c.toNat ∧ c.toNat ≠ 45 := by
  unfold plain Char.isAlphanum Char.isAlpha Char.isUpper Char.isLower Char.isDigit at h
  simp only [Bool.or_eq_true, Bool.and_eq_true, decide_eq_true_iff, ge_iff_le] at h
  rcases h with ((⟨h₁, h₂⟩ | ⟨h₁, h₂⟩) | ⟨h₁, h₂⟩) | rfl
  · have hlow : 65 ≤ c.toNat := h₁
    have hhigh : c.toNat ≤ 90 := h₂
    omega
  · have hlow : 97 ≤ c.toNat := h₁
    have hhigh : c.toNat ≤ 122 := h₂
    omega
  · have hlow : 48 ≤ c.toNat := h₁
    have hhigh : c.toNat ≤ 57 := h₂
    omega
  · decide

theorem isWhitespace_of_plain {c : Char} (h : plain c) : isWhitespace c = false := by
  obtain ⟨h₁, h₂, -⟩ := toNat_of_plain h
  unfold isWhitespace
  simp
  omega

theorem plain_of_isAlphanum {c : Char} (h : c.isAlphanum) : plain c := by
  unfold plain
  rw [h, Bool.true_or]

theorem plain_of_isDigit {c : Char} (h : c.isDigit) : plain c :=
  plain_of_isAlphanum (by rw [Char.isAlphanum, h, Bool.or_true])

/-- A text whose characters are checked one by one. -/
theorem plain_of_all {l : List Char} (h : l.all plain = true) : ∀ c ∈ l, plain c :=
  List.all_eq_true.mp h

theorem plain_known : ∀ profileType ∈ knownProfileTypes, ∀ c ∈ ("PT" ++ profileType).toList,
    plain c := by
  have hall : (knownProfileTypes.all fun profileType =>
      ("PT" ++ profileType).toList.all plain) = true := by decide +kernel
  intro profileType hknown
  exact plain_of_all (List.all_eq_true.mp hall profileType hknown)

theorem plain_of_parseU32 {value : String} {days : ℕ} (h : parseU32 value = some days) :
    ∀ c ∈ value.toList, plain c := by
  intro c hc
  obtain ⟨-, hdecimal | ⟨digits, rfl, hdecimal⟩⟩ := parseU32_eq_some.mp h
  · exact plain_of_isDigit (isDigit_of_decimal hdecimal c hc)
  · rw [String.toList_append, List.mem_append] at hc
    rcases hc with hplus | hc
    · rw [List.mem_singleton.mp hplus]
      decide
    · exact plain_of_isDigit (isDigit_of_decimal hdecimal c hc)

theorem plain_of_ok {f : Field} (h : f.Ok parseU32) : ∀ c ∈ f.text.toList, plain c := by
  intro c hc
  cases f with
  | AK algo =>
    have hall : ((Field.AK algo).text.toList.all plain) = true := by
      cases algo <;> decide +kernel
    exact plain_of_all hall c hc
  | VP value =>
    obtain ⟨days, hdays, -⟩ := h
    have hall : "VP".toList.all plain = true := by decide +kernel
    rcases List.mem_append.mp (String.toList_append ▸ hc) with hkind | hvalue
    · exact plain_of_all hall c hkind
    · exact plain_of_parseU32 hdays c hvalue
  | CC code =>
    have hall : "CC".toList.all plain = true := by decide +kernel
    rcases List.mem_append.mp (String.toList_append ▸ hc) with hkind | hvalue
    · exact plain_of_all hall c hkind
    · exact plain_of_isAlphanum (h.2.2 c hvalue)

theorem dash_not_mem {l : List Char} (h : ∀ c ∈ l, plain c) : '-' ∉ l :=
  fun hmem => absurd (h _ hmem) (by decide)

/-- The segments of a label are its profile type and its fields. -/
theorem splitChar_labelText {profileType : String} (hknown : profileType ∈ knownProfileTypes)
    {fields : List Field} (hok : ∀ f ∈ fields, f.Ok parseU32) :
    splitChar '-' (labelText profileType fields) =
      ("PT" ++ profileType) :: fields.map Field.text := by
  have hfirst : '-' ∉ ("PT" ++ profileType).toList := dash_not_mem (plain_known _ hknown)
  have hrest : ∀ piece ∈ fields.map fun f => f.text.toList, '-' ∉ piece := by
    intro piece hpiece
    obtain ⟨f, hf, rfl⟩ := List.mem_map.mp hpiece
    exact dash_not_mem (plain_of_ok (hok f hf))
  rw [splitChar, toList_labelText, splitCharList_join hfirst hrest, List.map_cons, List.map_map,
    String.ofList_toList]
  congr 1
  apply List.map_congr_left
  intro f _
  exact String.ofList_toList

theorem trim_labelText {profileType : String} (hknown : profileType ∈ knownProfileTypes)
    {fields : List Field} (hok : ∀ f ∈ fields, f.Ok parseU32) :
    trim (labelText profileType fields) = labelText profileType fields := by
  apply trim_of_all
  intro c hc
  rw [toList_labelText, List.mem_append, List.mem_flatMap] at hc
  rcases hc with hc | ⟨piece, hpiece, hc⟩
  · exact isWhitespace_of_plain (plain_known _ hknown c hc)
  · obtain ⟨f, hf, rfl⟩ := List.mem_map.mp hpiece
    rcases List.mem_cons.mp hc with rfl | hc
    · decide
    · exact isWhitespace_of_plain (plain_of_ok (hok f hf) c hc)

/-! ### Segments -/

namespace Field

/-- The field has no value yet. -/
def Unset (label : ParsedLabel) : Field → Prop
  | .AK _ => label.keyAlgo = none
  | .VP _ => label.validityDays = none
  | .CC _ => label.ccsa = none

/-- Store the value of a field. -/
def apply (label : ParsedLabel) : Field → ParsedLabel
  | .AK algo => { label with keyAlgo := some algo }
  | .VP value => { label with validityDays := parseU32 value }
  | .CC code => { label with ccsa := some code }

end Field

theorem fromToken_eq_some {v : String} {algo : KeyAlgo} :
    KeyAlgo.fromToken v = some algo ↔ v = algo.token := by
  unfold KeyAlgo.fromToken
  constructor
  · intro h
    split_ifs at h with h₁ h₂
    · rw [← Option.some.inj h]
      exact h₁
    · rw [← Option.some.inj h]
      exact h₂
  · rintro rfl
    cases algo <;> decide

theorem ccsa_ok_iff (code : String) :
    ¬ (code.isEmpty ∨ MAX_CCSA_LEN < code.utf8ByteSize ∨ ¬ code.toList.all Char.isAlphanum) ↔
      (Field.CC code).Ok parseU32 := by
  unfold Field.Ok
  rw [not_or, not_or, not_not, Nat.not_lt, List.all_eq_true, String.isEmpty_iff]
  apply and_congr_right
  intro _
  rw [and_comm, and_comm (a := code.toList.length ≤ _)]
  apply and_congr_right
  intro hall
  have hsize := utf8ByteSize_of_ascii fun c hc =>
    (toNat_of_plain (plain_of_isAlphanum (hall c hc))).1
  rw [String.ofList_toList] at hsize
  rw [hsize]

/-- A segment is accepted when it is an admissible field that is not set yet. -/
theorem addSegment_eq_ok {label label' : ParsedLabel} {seg : String} :
    addSegment label seg = .ok label' ↔
      ∃ f : Field, seg = f.text ∧ f.Ok parseU32 ∧ f.Unset label ∧ label' = f.apply label := by
  constructor
  · intro h
    unfold addSegment at h
    split at h
    · rename_i v hv
      split at h
      · cases h
      · rename_i hunset
        split at h
        · rename_i algo halgo
          refine ⟨.AK algo, ?_, trivial, Option.not_isSome_iff_eq_none.mp hunset,
            (Except.ok.inj h).symm⟩
          rw [stripPrefix_eq_some.mp hv, fromToken_eq_some.mp halgo]
          rfl
        · cases h
    · split at h
      · rename_i v hv
        split at h
        · cases h
        · rename_i hunset
          split at h
          · cases h
          · rename_i days hdays
            split_ifs at h with hrange
            refine ⟨.VP v, stripPrefix_eq_some.mp hv, ⟨days, hdays, by omega⟩,
              Option.not_isSome_iff_eq_none.mp hunset, ?_⟩
            rw [← Except.ok.inj h, Field.apply, hdays]
      · split at h
        · rename_i v hv
          split_ifs at h with hunset hcode
          refine ⟨.CC v, stripPrefix_eq_some.mp hv, (ccsa_ok_iff v).mp hcode,
            Option.not_isSome_iff_eq_none.mp hunset, (Except.ok.inj h).symm⟩
        · cases h
  · rintro ⟨f, rfl, hok, hunset, rfl⟩
    cases f with
    | AK algo =>
      have hstrip : stripPrefix (Field.AK algo).text "AK" = some algo.token :=
        stripPrefix_append ..
      have hnone : label.keyAlgo = none := hunset
      unfold addSegment
      rw [hstrip]
      simp only [hnone, Option.isSome_none, Bool.false_eq_true, if_false]
      rw [fromToken_eq_some.mpr rfl]
      rfl
    | VP value =>
      obtain ⟨days, hdays, hlow, hhigh⟩ := hok
      have hstrip : stripPrefix ("VP" ++ value) "AK" = none :=
        stripPrefix_eq_none (by decide) (by decide) (by decide) value
      have hvalue : stripPrefix ("VP" ++ value) "VP" = some value := stripPrefix_append ..
      have hnone : label.validityDays = none := hunset
      show addSegment label ("VP" ++ value) = _
      unfold addSegment
      rw [hstrip, hvalue]
      simp only [hnone, Option.isSome_none, Bool.false_eq_true, if_false, hdays]
      rw [if_neg (by omega), Field.apply, hdays]
    | CC code =>
      have hak : stripPrefix ("CC" ++ code) "AK" = none :=
        stripPrefix_eq_none (by decide) (by decide) (by decide) code
      have hvp : stripPrefix ("CC" ++ code) "VP" = none :=
        stripPrefix_eq_none (by decide) (by decide) (by decide) code
      have hvalue : stripPrefix ("CC" ++ code) "CC" = some code := stripPrefix_append ..
      have hnone : label.ccsa = none := hunset
      show addSegment label ("CC" ++ code) = _
      unfold addSegment
      rw [hak, hvp, hvalue]
      simp only [hnone, Option.isSome_none, Bool.false_eq_true, if_false]
      rw [if_neg ((ccsa_ok_iff code).mpr hok)]
      rfl

/-- Another field is unset after a field exactly when it was before and is of another kind. -/
theorem unset_apply {label : ParsedLabel} {f g : Field} (hok : f.Ok parseU32) :
    g.Unset (f.apply label) ↔ g.Unset label ∧ g.kind ≠ f.kind := by
  cases f with
  | AK algo => cases g <;> simp [Field.Unset, Field.apply, Field.kind]
  | VP value =>
    obtain ⟨days, hdays, -⟩ := hok
    cases g <;> simp [Field.Unset, Field.apply, Field.kind, hdays]
  | CC code => cases g <;> simp [Field.Unset, Field.apply, Field.kind]

/-- The loop over the segments. -/
theorem foldlM_addSegment {label label' : ParsedLabel} {segments : List String} :
    segments.foldlM addSegment label = .ok label' ↔
      ∃ fields : List Field, segments = fields.map Field.text ∧ (∀ f ∈ fields, f.Ok parseU32) ∧
        (∀ f ∈ fields, f.Unset label) ∧ (fields.map Field.kind).Nodup ∧
        label' = fields.foldl Field.apply label := by
  induction segments generalizing label with
  | nil =>
    constructor
    · intro h
      exact ⟨[], rfl, by simp, by simp, List.nodup_nil, (Except.ok.inj h).symm⟩
    · rintro ⟨fields, hsegments, -, -, -, rfl⟩
      rw [List.map_eq_nil_iff.mp hsegments.symm]
      rfl
  | cons seg segments ih =>
    rw [List.foldlM_cons]
    constructor
    · intro h
      obtain ⟨next, hnext, h⟩ := bind_eq_ok h
      obtain ⟨f, rfl, hok, hunset, rfl⟩ := addSegment_eq_ok.mp hnext
      obtain ⟨fields, rfl, hoks, hunsets, hnodup, rfl⟩ := ih.mp h
      refine ⟨f :: fields, rfl, ?_, ?_, ?_, rfl⟩
      · exact List.forall_mem_cons.mpr ⟨hok, hoks⟩
      · exact List.forall_mem_cons.mpr ⟨hunset, fun g hg => ((unset_apply hok).mp (hunsets g hg)).1⟩
      · rw [List.map_cons, List.nodup_cons]
        refine ⟨fun hmem => ?_, hnodup⟩
        obtain ⟨g, hg, hkind⟩ := List.mem_map.mp hmem
        exact ((unset_apply hok).mp (hunsets g hg)).2 hkind
    · rintro ⟨fields, hsegments, hoks, hunsets, hnodup, rfl⟩
      obtain ⟨f, fields, rfl, rfl, rfl⟩ := List.map_eq_cons_iff.mp hsegments.symm
      rw [List.map_cons, List.nodup_cons] at hnodup
      have hok := hoks f List.mem_cons_self
      have hnext : addSegment label f.text = .ok (f.apply label) :=
        addSegment_eq_ok.mpr ⟨f, rfl, hok, hunsets f List.mem_cons_self, rfl⟩
      rw [hnext]
      refine ih.mpr ⟨fields, rfl, fun g hg => hoks g (List.mem_cons_of_mem _ hg),
        fun g hg => (unset_apply hok).mpr ⟨hunsets g (List.mem_cons_of_mem _ hg), ?_⟩,
        hnodup.2, rfl⟩
      exact fun hkind => hnodup.1 (hkind ▸ List.mem_map_of_mem hg)

/-! ### Labels -/

/-- The label that the fields make. -/
def labelOf (profileType : String) (fields : List Field) : ParsedLabel :=
  fields.foldl Field.apply { profileType }

/-- **The labels that are accepted**, and what is made of them. -/
theorem parseLabel_eq_ok {s : String} {label : ParsedLabel} :
    parseLabel s = .ok label ↔ ∃ profileType fields,
      IsLabel parseU32 s profileType fields ∧ label = labelOf profileType fields := by
  unfold parseLabel
  dsimp only
  constructor
  · intro h
    split_ifs at h
    split at h
    · cases h
    · rename_i first segments hsplit
      split at h
      · cases h
      · rename_i ptval hpt
        split_ifs at h with hknown
        obtain ⟨fields, rfl, hok, -, hnodup, rfl⟩ := foldlM_addSegment.mp h
        refine ⟨ptval, fields, ⟨?_, ?_, hok, hnodup⟩, rfl⟩
        · rw [← String.toList_inj, toList_of_splitChar hsplit, toList_labelText,
            stripPrefix_eq_some.mp hpt, List.map_map]
          rfl
        · simpa using hknown
  · rintro ⟨profileType, fields, hlabel, rfl⟩
    have hnonempty : ¬ (labelText profileType fields).isEmpty := by
      rw [String.isEmpty_iff, ← String.toList_inj, toList_labelText, String.toList_append]
      exact List.cons_ne_nil _ _
    have hsplit := splitChar_labelText hlabel.known hlabel.ok
    have hstrip : stripPrefix ("PT" ++ profileType) "PT" = some profileType := stripPrefix_append ..
    have hknown : knownProfileTypes.contains profileType = true := by simpa using hlabel.known
    rw [hlabel.text, if_neg hnonempty, hsplit]
    dsimp only
    rw [hstrip]
    dsimp only
    rw [if_neg (not_not.mpr hknown)]
    refine foldlM_addSegment.mpr ⟨fields, rfl, hlabel.ok, fun f _ => ?_, hlabel.once, rfl⟩
    cases f <;> rfl

/-- Fields store the values that are written. -/
theorem foldl_apply_reads {fields : List Field} {label : ParsedLabel}
    (hok : ∀ f ∈ fields, f.Ok parseU32) (hunset : ∀ f ∈ fields, f.Unset label)
    (hnodup : (fields.map Field.kind).Nodup) :
    (fields.foldl Field.apply label).profileType = label.profileType ∧
      (∀ algo, (fields.foldl Field.apply label).keyAlgo = some algo ↔
        label.keyAlgo = some algo ∨ .AK algo ∈ fields) ∧
      (∀ days, (fields.foldl Field.apply label).validityDays = some days ↔
        label.validityDays = some days ∨
          ∃ value, .VP value ∈ fields ∧ parseU32 value = some days) ∧
      ∀ code, (fields.foldl Field.apply label).ccsa = some code ↔
        label.ccsa = some code ∨ .CC code ∈ fields := by
  induction fields generalizing label with
  | nil => simp
  | cons f fields ih =>
    rw [List.map_cons, List.nodup_cons] at hnodup
    have hfirst := hok f List.mem_cons_self
    have hnext : ∀ g ∈ fields, g.Unset (f.apply label) := by
      intro g hg
      refine (unset_apply hfirst).mpr ⟨hunset g (List.mem_cons_of_mem _ hg), fun hkind => ?_⟩
      exact hnodup.1 (hkind ▸ List.mem_map_of_mem hg)
    obtain ⟨htype, halgo, hdays, hcode⟩ :=
      ih (fun g hg => hok g (List.mem_cons_of_mem _ hg)) hnext hnodup.2
    have hnone := hunset f List.mem_cons_self
    rw [List.foldl_cons]
    cases f with
    | AK a =>
      have hnone : label.keyAlgo = none := hnone
      refine ⟨htype, fun algo => ?_, fun days => ?_, fun code => ?_⟩
      · rw [halgo]
        simp [Field.apply, hnone, eq_comm]
      · rw [hdays]
        simp [Field.apply]
      · rw [hcode]
        simp [Field.apply]
    | VP v =>
      have hnone : label.validityDays = none := hnone
      refine ⟨htype, fun algo => ?_, fun days => ?_, fun code => ?_⟩
      · rw [halgo]
        simp [Field.apply]
      · rw [hdays]
        simp [Field.apply, hnone, or_and_right, exists_or]
      · rw [hcode]
        simp [Field.apply]
    | CC c =>
      have hnone : label.ccsa = none := hnone
      refine ⟨htype, fun algo => ?_, fun days => ?_, fun code => ?_⟩
      · rw [halgo]
        simp [Field.apply]
      · rw [hdays]
        simp [Field.apply]
      · rw [hcode]
        simp [Field.apply, hnone, eq_comm]

theorem reads_labelOf {s profileType : String} {fields : List Field}
    (h : IsLabel parseU32 s profileType fields) :
    Reads parseU32 profileType fields (labelOf profileType fields) := by
  have hunset : ∀ f ∈ fields, f.Unset { profileType } := fun f _ => by cases f <;> rfl
  obtain ⟨htype, halgo, hdays, hcode⟩ := foldl_apply_reads h.ok hunset h.once
  refine ⟨htype, fun algo => ?_, fun days => ?_, fun code => ?_⟩
  · rw [labelOf, halgo]
    simp
  · rw [labelOf, hdays]
    simp
  · rw [labelOf, hcode]
    simp

/-- The values of a result are admissible. -/
theorem ok_fields {s profileType : String} {fields : List Field} {label : ParsedLabel}
    (h : IsLabel parseU32 s profileType fields) (hreads : Reads parseU32 profileType fields label) :
    ∀ f ∈ label.fields, f.Ok parseU32 := by
  intro f hf
  unfold ParsedLabel.fields at hf
  rw [List.mem_append, List.mem_append] at hf
  rcases hf with (hf | hf) | hf
  · obtain ⟨algo, -, rfl⟩ := Option.map_eq_some_iff.mp (Option.mem_toList.mp hf)
    trivial
  · obtain ⟨days, hdays, rfl⟩ := Option.map_eq_some_iff.mp (Option.mem_toList.mp hf)
    obtain ⟨value, hmem, hvalue⟩ := (hreads.validityDays days).mp hdays
    obtain ⟨days', hdays', hlow, hhigh⟩ := h.ok _ hmem
    obtain rfl := Option.some.inj (hvalue.symm.trans hdays')
    refine ⟨days, parseU32_eq_some.mpr ⟨?_, .inl (decimal_toString days)⟩, hlow, hhigh⟩
    unfold MAX_VALIDITY_DAYS at hhigh
    omega
  · obtain ⟨code, hcode, rfl⟩ := Option.map_eq_some_iff.mp (Option.mem_toList.mp hf)
    exact h.ok _ ((hreads.ccsa code).mp hcode)

/-- **A result is rendered and read back.** -/
theorem parseLabel_render {s : String} {label : ParsedLabel} (h : parseLabel s = .ok label) :
    parseLabel label.render = .ok label := by
  obtain ⟨profileType, fields, hlabel, rfl⟩ := parseLabel_eq_ok.mp h
  have hreads := reads_labelOf hlabel
  have hok := ok_fields hlabel hreads
  have hbound : ∀ days, (labelOf profileType fields).validityDays = some days →
      parseU32 (toString days) = some days := by
    intro days hdays
    have hmem : .VP (toString days) ∈ (labelOf profileType fields).fields := by
      simp [ParsedLabel.fields, hdays]
    obtain ⟨days', hdays', -⟩ := hok _ hmem
    have hdecimal := decimal_toString days
    rcases (parseU32_eq_some.mp hdays').2 with hread | ⟨digits, hplus, -⟩
    · rw [hdays', Option.some.inj (hread.symm.trans hdecimal)]
    · rw [decimal_cons_plus (by rw [hplus, String.toList_append]; rfl)] at hdecimal
      cases hdecimal
  generalize labelOf profileType fields = label at hreads hok hbound ⊢
  have hknown : label.profileType ∈ knownProfileTypes := by
    rw [hreads.profileType]
    exact hlabel.known
  refine parseLabel_eq_ok.mpr ⟨label.profileType, label.fields,
    ⟨trim_labelText hknown hok, hknown, hok, ?_⟩, ?_⟩
  · unfold ParsedLabel.fields
    cases label.keyAlgo <;> cases label.validityDays <;> cases label.ccsa <;> simp [Field.kind]
  · obtain ⟨type, algo, validity, code⟩ := label
    cases validity with
    | none => cases algo <;> cases code <;> rfl
    | some days =>
      have hdays : parseU32 days.repr = some days := hbound days rfl
      cases algo <;> cases code <;> simp [labelOf, ParsedLabel.fields, Field.apply, hdays]

/-! ### Numbers with a sign -/

/-- The number after a plus sign. -/
def signed (s : String) : Option ℕ := (stripPrefix s "+").bind decimal

theorem signed_eq_some {s : String} {n : ℕ} :
    signed s = some n ↔ ∃ digits, s = "+" ++ digits ∧ decimal digits = some n := by
  unfold signed
  rw [Option.bind_eq_some_iff]
  exact exists_congr fun digits => and_congr_left fun _ => stripPrefix_eq_some

/-- An admissible number of days has a sign, or it has none. -/
theorem ok_parseU32_iff {f : Field} :
    f.Ok parseU32 ↔ f.Ok decimal ∨ f.Ok signed := by
  cases f with
  | AK algo => simp [Field.Ok]
  | VP value =>
    unfold Field.Ok
    constructor
    · rintro ⟨days, hdays, hrange⟩
      rcases (parseU32_eq_some.mp hdays).2 with hread | hsign
      · exact .inl ⟨days, hread, hrange⟩
      · exact .inr ⟨days, signed_eq_some.mpr hsign, hrange⟩
    · rintro (⟨days, hread, hrange⟩ | ⟨days, hsign, hrange⟩)
      · refine ⟨days, parseU32_eq_some.mpr ⟨?_, .inl hread⟩, hrange⟩
        unfold MAX_VALIDITY_DAYS at hrange
        omega
      · refine ⟨days, parseU32_eq_some.mpr ⟨?_, .inr (signed_eq_some.mp hsign)⟩, hrange⟩
        unfold MAX_VALIDITY_DAYS at hrange
        omega
  | CC code => simp [Field.Ok]

theorem decimal_of_signed {s : String} {n : ℕ} (h : signed s = some n) : decimal s = none := by
  obtain ⟨digits, rfl, -⟩ := signed_eq_some.mp h
  exact decimal_cons_plus (String.toList_append ..)

theorem text_injective {f g : Field} (h : f.text = g.text) : f = g := by
  have hlist := congrArg String.toList h
  unfold Field.text at hlist
  rw [String.toList_append, String.toList_append] at hlist
  have hlen (f : Field) : f.kind.toList.length = 2 := by
    cases f <;> simp [Field.kind]
  obtain ⟨hkind, hvalue⟩ := List.append_inj hlist ((hlen f).trans (hlen g).symm)
  have hkind := String.toList_inj.mp hkind
  have hvalue := String.toList_inj.mp hvalue
  cases f with
  | AK a =>
    cases g with
    | AK b => cases a <;> cases b <;> first | rfl | exact absurd hvalue (by decide)
    | VP _ => simp [Field.kind] at hkind
    | CC _ => simp [Field.kind] at hkind
  | VP v =>
    cases g with
    | AK _ => simp [Field.kind] at hkind
    | VP w => exact congrArg Field.VP hvalue
    | CC _ => simp [Field.kind] at hkind
  | CC c =>
    cases g with
    | AK _ => simp [Field.kind] at hkind
    | VP _ => simp [Field.kind] at hkind
    | CC d => exact congrArg Field.CC hvalue

/-- A label has one reading. -/
theorem isLabel_unique {s profileType profileType' : String} {fields fields' : List Field}
    (h : IsLabel parseU32 s profileType fields) (h' : IsLabel parseU32 s profileType' fields') :
    profileType = profileType' ∧ fields = fields' := by
  have hsplit := splitChar_labelText h.known h.ok
  have hsplit' := splitChar_labelText h'.known h'.ok
  rw [← h.text] at hsplit
  rw [← h'.text, hsplit, List.cons.injEq] at hsplit'
  constructor
  · have hlist := congrArg String.toList hsplit'.1
    rw [String.toList_append, String.toList_append] at hlist
    exact String.toList_inj.mp (List.append_cancel_left hlist)
  · exact List.map_injective_iff.mpr (fun _ _ => text_injective) hsplit'.2

/-- The rule for a string: it is accepted when it is a label of the grammar with decimal digits, the
result holds what is written, and it is read back from its text. -/
structure GrammarRule (s : String) : Prop where
  accepts : (∃ label, parseLabel s = .ok label) ↔
    ∃ profileType fields, IsLabel decimal s profileType fields
  values : ∀ label profileType fields, parseLabel s = .ok label →
    IsLabel decimal s profileType fields → Reads decimal profileType fields label
  again : ∀ label, parseLabel s = .ok label → parseLabel label.render = .ok label

/-- The label has a number of days with a plus sign. -/
def Signed (s : String) : Prop :=
  ∃ profileType fields, IsLabel signed s profileType fields ∧ ∃ value, .VP value ∈ fields


theorem IsLabel.of_ok {number number' : String → Option ℕ} {s profileType : String}
    {fields : List Field} (h : IsLabel number s profileType fields)
    (hok : ∀ f ∈ fields, f.Ok number') : IsLabel number' s profileType fields :=
  ⟨h.text, h.known, hok, h.once⟩

/-- What the library reads is a label of the grammar, or one with a sign. -/
theorem isLabel_parseU32 {s profileType : String} {fields : List Field}
    (h : IsLabel parseU32 s profileType fields) :
    IsLabel decimal s profileType fields ∨ Signed s := by
  by_cases hdecimal : ∀ f ∈ fields, f.Ok decimal
  · exact .inl (h.of_ok hdecimal)
  · right
    push Not at hdecimal
    obtain ⟨f, hf, hnot⟩ := hdecimal
    cases f with
    | AK algo => exact absurd trivial hnot
    | CC code => exact absurd (h.ok _ hf) hnot
    | VP value =>
      refine ⟨profileType, fields, h.of_ok fun g hg => ?_, value, hf⟩
      rcases ok_parseU32_iff.mp (h.ok g hg) with hread | hsign
      · cases g with
        | AK algo => trivial
        | CC code => exact hread
        | VP value' =>
          -- there is one number only
          have hsame : Field.VP value' = Field.VP value :=
            List.inj_on_of_nodup_map h.once hg hf rfl
          exact absurd (hsame ▸ hread) hnot
      · exact hsign

/-- **The strings on which the parser follows the grammar** are those that are no label with a plus
sign before the number of days. -/
theorem grammarRule_iff (s : String) : GrammarRule s ↔ ¬ Signed s := by
  constructor
  · rintro hrule ⟨profileType, fields, hsigned, value, hmem⟩
    have hread : IsLabel parseU32 s profileType fields :=
      hsigned.of_ok fun f hf => ok_parseU32_iff.mpr (.inr (hsigned.ok f hf))
    obtain ⟨profileType', fields', hdecimal⟩ :=
      hrule.accepts.mp ⟨_, parseLabel_eq_ok.mpr ⟨profileType, fields, hread, rfl⟩⟩
    have hread' : IsLabel parseU32 s profileType' fields' :=
      hdecimal.of_ok fun f hf => ok_parseU32_iff.mpr (.inl (hdecimal.ok f hf))
    obtain ⟨-, rfl⟩ := isLabel_unique hread hread'
    obtain ⟨days, hdays, -⟩ := hsigned.ok _ hmem
    obtain ⟨days', hdays', -⟩ := hdecimal.ok _ hmem
    rw [decimal_of_signed hdays] at hdays'
    cases hdays'
  · intro hunsigned
    have hdecimal {profileType : String} {fields : List Field}
        (h : IsLabel parseU32 s profileType fields) : IsLabel decimal s profileType fields :=
      (isLabel_parseU32 h).resolve_right hunsigned
    have hlibrary {profileType : String} {fields : List Field}
        (h : IsLabel decimal s profileType fields) : IsLabel parseU32 s profileType fields :=
      h.of_ok fun f hf => ok_parseU32_iff.mpr (.inl (h.ok f hf))
    refine ⟨⟨?_, ?_⟩, ?_, fun label => parseLabel_render⟩
    · rintro ⟨label, hlabel⟩
      obtain ⟨profileType, fields, h, -⟩ := parseLabel_eq_ok.mp hlabel
      exact ⟨profileType, fields, hdecimal h⟩
    · rintro ⟨profileType, fields, h⟩
      exact ⟨_, parseLabel_eq_ok.mpr ⟨profileType, fields, hlibrary h, rfl⟩⟩
    · intro label profileType fields hlabel h
      obtain ⟨profileType', fields', h', rfl⟩ := parseLabel_eq_ok.mp hlabel
      obtain ⟨rfl, rfl⟩ := isLabel_unique (hlibrary h) h'
      have hreads := reads_labelOf h'
      refine ⟨hreads.profileType, hreads.keyAlgo, fun days => ?_, hreads.ccsa⟩
      rw [hreads.validityDays]
      refine exists_congr fun value => and_congr_right fun hmem => ?_
      obtain ⟨days', hdays', hrange⟩ := h.ok _ hmem
      have hread : parseU32 value = some days' := by
        refine parseU32_eq_some.mpr ⟨?_, .inl hdays'⟩
        unfold MAX_VALIDITY_DAYS at hrange
        omega
      rw [hread, hdays']

/-- A plus sign before the number is accepted. -/
theorem grammarRule_plus : ¬ GrammarRule "PTTLS-VP+5" := by
  intro hrule
  have hlabel : parseLabel "PTTLS-VP+5" =
      .ok { profileType := "TLS", validityDays := some 5 } := by decide +kernel
  obtain ⟨profileType, fields, h⟩ := hrule.accepts.mp ⟨_, hlabel⟩
  have hread : IsLabel parseU32 "PTTLS-VP+5" profileType fields :=
    h.of_ok fun f hf => ok_parseU32_iff.mpr (.inl (h.ok f hf))
  have hplus : IsLabel parseU32 "PTTLS-VP+5" "TLS" [.VP "+5"] := by
    refine ⟨by decide +kernel, by decide, fun f hf => ?_, by simp⟩
    rw [List.mem_singleton.mp hf]
    exact ⟨5, by decide, by decide, by decide⟩
  obtain ⟨-, rfl⟩ := isLabel_unique hread hplus
  obtain ⟨days, hdays, -⟩ := h.ok _ (List.mem_singleton_self _)
  have hnone : decimal "+5" = none := by decide
  rw [hnone] at hdays
  cases hdays

end Ostrich.Est.Label
