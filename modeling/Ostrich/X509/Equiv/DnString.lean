import Ostrich.Lib.Rfc4514
import Ostrich.X509.Csr

/-!
# Distinguished names as strings

`toStringRfc4514` against the grammar of RFC 4514 (`Rfc4514.parse`).

* `parseString_escapeRdnValue`: the string of a value is in the grammar unless the value ends in a
  backslash and a space, and then it is read back;
* `faithful_iff`: so the string of a name is read back exactly if no value ends like that;
* `unescaped_space` is a name whose string is not in the grammar.
-/

namespace Ostrich.X509

open Rfc4514 Text

/-! ### Escapes -/

/-- The characters that are escaped wherever they stand. -/
def special (c : Char) : Bool := [',', '+', '"', '\\', '<', '>', ';'].contains c

/-- A character that is not the first one. -/
def escapeChar (c : Char) : List Char := if special c then ['\\', c] else [c]

/-- The first character. -/
def escapeFirst (c : Char) : List Char :=
  if special c || ['#', ' '].contains c then ['\\', c] else [c]

theorem escapeRdnChars_of_ne_nil {escaped : List Char} (h : escaped ≠ []) (l : List Char) :
    escapeRdnChars escaped l = escaped ++ l.flatMap escapeChar := by
  induction l generalizing escaped with
  | nil => simp [escapeRdnChars]
  | cons c l ih =>
    have hfirst : decide ([] = escaped) = false := decide_eq_false fun heq => h heq.symm
    rw [escapeRdnChars, hfirst, Bool.false_and, Bool.or_false]
    show (if special c = true then escapeRdnChars (escaped ++ ['\\', c]) l
      else escapeRdnChars (escaped ++ [c]) l) = _
    by_cases hc : special c = true
    · rw [if_pos hc, ih (by simp), List.flatMap_cons, escapeChar, if_pos hc, List.append_assoc]
    · rw [if_neg hc, ih (by simp), List.flatMap_cons, escapeChar, if_neg hc, List.append_assoc]

theorem escapeRdnChars_cons (c : Char) (l : List Char) :
    escapeRdnChars [] (c :: l) = escapeFirst c ++ l.flatMap escapeChar := by
  rw [escapeRdnChars, decide_eq_true rfl, Bool.true_and, escapeFirst]
  show (if (special c || ['#', ' '].contains c) = true then escapeRdnChars ([] ++ ['\\', c]) l
    else escapeRdnChars ([] ++ [c]) l) = _
  by_cases hc : (special c || ['#', ' '].contains c) = true
  · rw [if_pos hc, if_pos hc, escapeRdnChars_of_ne_nil (by simp)]
    rfl
  · rw [if_neg hc, if_neg hc, escapeRdnChars_of_ne_nil (by simp)]
    rfl

/-- The escaped characters of a value, before its end is looked at. -/
def escapeChars : List Char → List Char
  | [] => []
  | c :: l => escapeFirst c ++ l.flatMap escapeChar

theorem escapeRdnChars_nil (l : List Char) : escapeRdnChars [] l = escapeChars l := by
  cases l with
  | nil => rfl
  | cons c l => exact escapeRdnChars_cons c l

theorem escapeChars_append {l : List Char} (h : l ≠ []) (c : Char) :
    escapeChars (l ++ [c]) = escapeChars l ++ escapeChar c := by
  cases l with
  | nil => exact absurd rfl h
  | cons a l => simp [escapeChars]

/-- A character is written last, escaped or not. -/
theorem exists_escapeChar (c : Char) : ∃ front, escapeChar c = front ++ [c] := by
  unfold escapeChar
  split_ifs
  · exact ⟨['\\'], rfl⟩
  · exact ⟨[], rfl⟩

theorem exists_escapeFirst (c : Char) : ∃ front, escapeFirst c = front ++ [c] := by
  unfold escapeFirst
  split_ifs
  · exact ⟨['\\'], rfl⟩
  · exact ⟨[], rfl⟩

/-- The escaped characters end in the last character. -/
theorem exists_escapeChars (l : List Char) (c : Char) :
    ∃ front, escapeChars (l ++ [c]) = front ++ [c] := by
  by_cases hl : l = []
  · subst hl
    obtain ⟨front, hfront⟩ := exists_escapeFirst c
    exact ⟨front, by simpa [escapeChars] using hfront⟩
  · obtain ⟨front, hfront⟩ := exists_escapeChar c
    exact ⟨escapeChars l ++ front, by rw [escapeChars_append hl, hfront, List.append_assoc]⟩

/-! ### Values -/

theorem toList_escapeRdnValue (value : String) : (escapeRdnValue value).toList =
    if [' '].isSuffixOf (escapeChars value.toList) &&
        !(['\\', ' '].isSuffixOf (escapeChars value.toList)) then
      (escapeChars value.toList).dropLast ++ ['\\', ' ']
    else escapeChars value.toList := by
  unfold escapeRdnValue
  rw [escapeRdnChars_nil]
  dsimp only
  split_ifs <;> rw [String.toList_ofList]

theorem isSuffixOf_concat (p : List Char) (a b : Char) (l : List Char) :
    (p ++ [a]).isSuffixOf (l ++ [b]) = (a == b && p.isSuffixOf l) := by
  unfold List.isSuffixOf
  simp [List.isPrefixOf]

/-- What is written for a value that does not end in a space. -/
theorem toList_escapeRdnValue_of_ne {l : List Char} {c : Char} (hc : c ≠ ' ') :
    (escapeRdnValue (String.ofList (l ++ [c]))).toList = escapeChars (l ++ [c]) := by
  obtain ⟨front, hfront⟩ := exists_escapeChars l c
  have hsuffix : [' '].isSuffixOf (front ++ [c]) = false := by
    have := isSuffixOf_concat [] ' ' c front
    rw [List.nil_append] at this
    rw [this, beq_false_of_ne hc.symm, Bool.false_and]
  rw [toList_escapeRdnValue, String.toList_ofList, hfront, hsuffix, Bool.false_and,
    if_neg Bool.false_ne_true]

/-- What is written for a value that ends in a space after a character. -/
theorem toList_escapeRdnValue_space (l : List Char) (c : Char) :
    (escapeRdnValue (String.ofList (l ++ [c] ++ [' ']))).toList =
      escapeChars (l ++ [c]) ++ if c = '\\' then [' '] else ['\\', ' '] := by
  obtain ⟨front, hfront⟩ := exists_escapeChars l c
  have hlast : escapeChars (l ++ [c] ++ [' ']) = front ++ [c] ++ [' '] := by
    rw [escapeChars_append (by simp), hfront]
    rfl
  have hspace : [' '].isSuffixOf (front ++ [c] ++ [' ']) = true := by
    have := isSuffixOf_concat [] ' ' ' ' (front ++ [c])
    rw [List.nil_append] at this
    rw [this]
    rfl
  have hescape : ['\\', ' '].isSuffixOf (front ++ [c] ++ [' ']) = ('\\' == c) := by
    have h₁ := isSuffixOf_concat ['\\'] ' ' ' ' (front ++ [c])
    have h₂ := isSuffixOf_concat [] '\\' c front
    rw [List.nil_append] at h₂
    rw [show ['\\', ' '] = ['\\'] ++ [' '] from rfl, h₁, h₂]
    simp [List.isSuffixOf]
  rw [toList_escapeRdnValue, String.toList_ofList, hlast, hspace, hescape, hfront, Bool.true_and,
    List.dropLast_concat]
  by_cases hc : c = '\\'
  · rw [if_pos hc, if_neg (by simp [hc])]
  · rw [if_neg hc, if_pos (by simpa using fun heq : '\\' = c => hc heq.symm)]

/-! ### Reading values -/

/-- The octets of characters. -/
def octets (l : List Char) : List UInt8 := l.flatMap String.utf8EncodeChar

theorem utf8_ofList (l : List Char) : utf8 (String.ofList l) = octets l := by
  unfold utf8 octets
  show (String.ofList l).toByteArray.data.toList = _
  rw [String.toByteArray_ofList]
  simp [List.utf8Encode]

theorem isPairChar_of_special {c : Char} (h : special c = true) : isPairChar c = true := by
  have hmem : c ∈ [',', '+', '"', '\\', '<', '>', ';'] := List.contains_iff_mem.mp h
  have hall : [',', '+', '"', '\\', '<', '>', ';'].all isPairChar = true := by decide
  exact List.all_eq_true.mp hall c hmem

theorem isStringChar_of_not_special {c : Char} (hnul : c ≠ '\x00') (h : special c ≠ true) :
    isStringChar c = true := by
  have hne : ¬(c = ',' ∨ c = '+' ∨ c = '"' ∨ c = '\\' ∨ c = '<' ∨ c = '>' ∨ c = ';') := by
    simpa [special] using h
  simp only [not_or] at hne
  simp [isStringChar, hnul, hne]

/-- A later character with text after it. -/
theorem parseString_escapeChar {c : Char} (hnul : c ≠ '\x00') {l : List Char} (hl : l ≠ []) :
    parseString false (escapeChar c ++ l) =
      (String.utf8EncodeChar c ++ ·) <$> parseString false l := by
  unfold escapeChar
  split_ifs with hc
  · exact parseString_pair false (isPairChar_of_special hc) l
  · exact parseString_char (isStringChar_of_not_special hnul hc) hl

/-- The last character, if it is no space. -/
theorem parseString_escapeChar_last {c : Char} (hnul : c ≠ '\x00') (hspace : c ≠ ' ') :
    parseString false (escapeChar c) = some (String.utf8EncodeChar c) := by
  unfold escapeChar
  split_ifs with hc
  · rw [parseString_pair false (isPairChar_of_special hc)]
    simp [parseString]
  · refine parseString_trail ?_
    rw [isTrailChar, isStringChar_of_not_special hnul hc, decide_eq_true hspace]
    rfl

theorem parseString_flatMap {m : List Char} (hnul : '\x00' ∉ m) {l : List Char} (hl : l ≠ []) :
    parseString false (m.flatMap escapeChar ++ l) = (octets m ++ ·) <$> parseString false l := by
  induction m with
  | nil => simp [octets]
  | cons c m ih =>
    have hc : c ≠ '\x00' := fun heq => hnul (heq ▸ List.mem_cons_self)
    rw [List.flatMap_cons, List.append_assoc,
      parseString_escapeChar hc (List.append_ne_nil_of_right_ne_nil _ hl),
      ih fun h => hnul (List.mem_cons_of_mem _ h)]
    simp [octets, Function.comp_def]

/-- The first character. -/
theorem parseString_escapeFirst {c : Char} (hnul : c ≠ '\x00') (l : List Char) :
    parseString true (escapeFirst c ++ l) =
      (String.utf8EncodeChar c ++ ·) <$> parseString false l := by
  unfold escapeFirst
  split_ifs with hc
  · refine parseString_pair true ?_ l
    rcases Bool.or_eq_true_iff.mp hc with hc | hc
    · exact isPairChar_of_special hc
    · have hall : ['#', ' '].all isPairChar = true := by decide
      exact List.all_eq_true.mp hall c (List.contains_iff_mem.mp hc)
  · rw [Bool.or_eq_true_iff, not_or] at hc
    refine parseString_lead ?_ l
    have hne : c ≠ '#' ∧ c ≠ ' ' := by simpa using hc.2
    rw [isLeadChar, isStringChar_of_not_special hnul hc.1, decide_eq_true hne.1,
      decide_eq_true hne.2]
    rfl

/-- The escaped characters, with more text after them. -/
theorem parseString_escapeChars {m : List Char} (hm : m ≠ []) (hnul : '\x00' ∉ m)
    {l : List Char} (hl : l ≠ []) :
    parseString true (escapeChars m ++ l) = (octets m ++ ·) <$> parseString false l := by
  cases m with
  | nil => exact absurd rfl hm
  | cons c m =>
    have hc : c ≠ '\x00' := fun heq => hnul (heq ▸ List.mem_cons_self)
    rw [escapeChars, List.append_assoc, parseString_escapeFirst hc,
      parseString_flatMap (fun h => hnul (List.mem_cons_of_mem _ h)) hl]
    simp [octets, Function.comp_def]

/-- The value ends in a backslash and a space. -/
def EndsInBackslashSpace (l : List Char) : Prop := ['\\', ' '] <:+ l

instance (l : List Char) : Decidable (EndsInBackslashSpace l) :=
  inferInstanceAs (Decidable (_ <:+ _))

/-- **The string of a value is read back**, unless the value ends in a backslash and a space; then
it is not in the grammar. -/
theorem parseString_escapeRdnValue {value : List Char} (hnul : '\x00' ∉ value) :
    parseString true (escapeRdnValue (String.ofList value)).toList =
      if EndsInBackslashSpace value then none else some (octets value) := by
  rcases value.eq_nil_or_concat' with rfl | ⟨l, c, rfl⟩
  · rfl
  · have hc : c ≠ '\x00' := fun heq =>
      hnul (heq ▸ List.mem_append_right _ (List.mem_singleton_self _))
    have hlnul : '\x00' ∉ l := fun h => hnul (List.mem_append_left _ h)
    by_cases hspace : c = ' '
    · subst hspace
      rcases l.eq_nil_or_concat' with rfl | ⟨l, d, rfl⟩
      · decide
      · rw [toList_escapeRdnValue_space]
        have hends : EndsInBackslashSpace (l ++ [d] ++ [' ']) ↔ d = '\\' := by
          unfold EndsInBackslashSpace
          constructor
          · rintro ⟨front, hfront⟩
            rw [← List.singleton_append (x := '\\') (l := [' ']), ← List.append_assoc] at hfront
            have h₁ := (List.append_inj' hfront rfl).1
            exact (List.singleton_inj.mp (List.append_inj' h₁ rfl).2).symm
          · rintro rfl
            exact ⟨l, by simp⟩
        by_cases hd : d = '\\'
        · -- the space is not escaped
          rw [if_pos hd, if_pos (hends.mpr hd),
            parseString_escapeChars (by simp) hlnul (by simp)]
          rfl
        · rw [if_neg hd, if_neg (mt hends.mp hd), parseString_escapeChars (by simp) hlnul (by simp),
            parseString_pair false (by decide)]
          simp [octets, parseString]
    · have hends : ¬EndsInBackslashSpace (l ++ [c]) := by
        rintro ⟨front, hfront⟩
        rw [← List.singleton_append (x := '\\') (l := [' ']), ← List.append_assoc] at hfront
        exact hspace (List.singleton_inj.mp (List.append_inj' hfront rfl).2).symm
      rw [toList_escapeRdnValue_of_ne hspace, if_neg hends]
      by_cases hl : l = []
      · subst hl
        have hfirst := parseString_escapeFirst hc []
        simpa [escapeChars, octets, parseString] using hfirst
      · have hne : escapeChar c ≠ [] := by
          obtain ⟨front, hfront⟩ := exists_escapeChar c
          rw [hfront]
          simp
        rw [escapeChars_append hl, parseString_escapeChars hl hlnul hne,
          parseString_escapeChar_last hc hspace]
        simp [octets]

/-! ### Separators -/

variable {sep : Char}

theorem closed_escapeChar (hsep : special sep = true) (c : Char) : Closed sep (escapeChar c) := by
  unfold escapeChar
  split_ifs with hc
  · exact .escape .nil
  · refine .char (fun heq => hc (heq ▸ by decide)) (fun heq => hc (heq ▸ hsep)) .nil

theorem closed_escapeFirst (hsep : special sep = true) (c : Char) :
    Closed sep (escapeFirst c) := by
  unfold escapeFirst
  split_ifs with hc
  · exact .escape .nil
  · rw [Bool.or_eq_true_iff, not_or] at hc
    exact .char (fun heq => hc.1 (heq ▸ by decide)) (fun heq => hc.1 (heq ▸ hsep)) .nil

theorem closed_flatMap (hsep : special sep = true) (l : List Char) :
    Closed sep (l.flatMap escapeChar) := by
  induction l with
  | nil => exact .nil
  | cons c l ih => exact (closed_escapeChar hsep c).append ih

theorem closed_escapeChars (hsep : special sep = true) (l : List Char) :
    Closed sep (escapeChars l) := by
  cases l with
  | nil => exact .nil
  | cons c l => exact (closed_escapeFirst hsep c).append (closed_flatMap hsep l)

/-- Every separator in the string of a value is escaped. -/
theorem closed_escapeRdnValue (hsep : special sep = true) (hspace : sep ≠ ' ')
    (value : List Char) : Closed sep (escapeRdnValue (String.ofList value)).toList := by
  rcases value.eq_nil_or_concat' with rfl | ⟨l, c, rfl⟩
  · exact .nil
  · by_cases hc : c = ' '
    · subst hc
      rcases l.eq_nil_or_concat' with rfl | ⟨l, d, rfl⟩
      · exact .escape .nil
      · rw [toList_escapeRdnValue_space]
        refine (closed_escapeChars hsep _).append ?_
        split_ifs
        · exact .char (by decide) hspace.symm .nil
        · exact .escape .nil
    · rw [toList_escapeRdnValue_of_ne hc]
      exact closed_escapeChars hsep _

theorem head_escapeRdnValue (value : List Char) :
    (escapeRdnValue (String.ofList value)).toList.head? ≠ some '#' := by
  have hescape (c : Char) (l : List Char) : (escapeFirst c ++ l).head? ≠ some '#' := by
    unfold escapeFirst
    split_ifs with hc
    · simp
    · rw [Bool.or_eq_true_iff, not_or] at hc
      have hne : c ≠ '#' ∧ c ≠ ' ' := by simpa using hc.2
      simpa using hne.1
  rcases value.eq_nil_or_concat' with rfl | ⟨l, c, rfl⟩
  · simp [toList_escapeRdnValue, escapeChars]
  · by_cases hc : c = ' '
    · subst hc
      rcases l with - | ⟨d, l⟩
      · decide
      · rcases (d :: l).eq_nil_or_concat' with hnil | ⟨m, e, heq⟩
        · cases hnil
        · have hspace := toList_escapeRdnValue_space m e
          rw [← heq] at hspace
          rw [hspace, escapeChars, List.append_assoc]
          exact hescape d _
    · rw [toList_escapeRdnValue_of_ne hc]
      rcases l with - | ⟨d, l⟩
      · exact hescape c _
      · exact hescape d _

/-! ### Names -/

/-- The attributes that are present, in the order in which they are written. -/
def DistinguishedName.attributes (dn : DistinguishedName) : List (String × String) :=
  [("CN", dn.commonName), ("OU", dn.organizationalUnit), ("O", dn.organization),
    ("L", dn.locality), ("ST", dn.stateOrProvince), ("C", dn.country),
    ("SERIALNUMBER", dn.serialNumber)].filterMap fun a => a.2.map fun value => (a.1, value)

/-- The string is in the grammar, and reading it gives the attributes back. -/
def DistinguishedName.Faithful (dn : DistinguishedName) : Prop :=
  parse dn.toStringRfc4514.toList =
    some (dn.attributes.map fun a => [(a.1.toList, .string (utf8 a.2))])

/-- The string of an attribute. -/
def partOf (a : String × String) : List Char := a.1.toList ++ '=' :: (escapeRdnValue a.2).toList

theorem toList_toStringRfc4514 (dn : DistinguishedName) :
    dn.toStringRfc4514.toList = [','].intercalate (dn.attributes.map partOf) := by
  unfold DistinguishedName.toStringRfc4514 DistinguishedName.attributes
  dsimp only
  rw [String.toList_intercalate]
  congr 1
  cases dn.commonName <;> cases dn.organizationalUnit <;> cases dn.organization <;>
    cases dn.locality <;> cases dn.stateOrProvince <;> cases dn.country <;>
    cases dn.serialNumber <;> simp [partOf]

/-- The names of the attribute types. -/
def typeNames : List String := ["CN", "OU", "O", "L", "ST", "C", "SERIALNUMBER"]

theorem type_of_mem {dn : DistinguishedName} {a : String × String} (h : a ∈ dn.attributes) :
    a.1 ∈ typeNames := by
  obtain ⟨⟨type, value⟩, hmem, heq⟩ := List.mem_filterMap.mp h
  obtain ⟨v, -, rfl⟩ := Option.map_eq_some_iff.mp heq
  have htypes : type ∈ [("CN", dn.commonName), ("OU", dn.organizationalUnit),
      ("O", dn.organization), ("L", dn.locality), ("ST", dn.stateOrProvince), ("C", dn.country),
      ("SERIALNUMBER", dn.serialNumber)].map Prod.fst := List.mem_map_of_mem (f := Prod.fst) hmem
  exact htypes

/-- A type name is a `descr`, and nothing in it is escaped. -/
theorem typeName_plain {type : String} (h : type ∈ typeNames) :
    isDescr type.toList = true ∧ ∀ c ∈ type.toList, c ≠ '\\' ∧ c ≠ ',' ∧ c ≠ '+' ∧ c ≠ '=' := by
  have hall : (typeNames.all fun type => isDescr type.toList && type.toList.all fun c =>
      c ≠ '\\' && c ≠ ',' && c ≠ '+' && c ≠ '=') = true := by decide
  have htype := List.all_eq_true.mp hall type h
  rw [Bool.and_eq_true] at htype
  refine ⟨htype.1, fun c hc => ?_⟩
  simpa [and_assoc] using List.all_eq_true.mp htype.2 c hc

theorem closed_plain {l : List Char} (h : ∀ c ∈ l, c ≠ '\\' ∧ c ≠ sep) : Closed sep l := by
  induction l with
  | nil => exact .nil
  | cons c l ih =>
    have hc := h c List.mem_cons_self
    exact .char hc.1 hc.2 (ih fun d hd => h d (List.mem_cons_of_mem _ hd))

theorem closed_partOf {a : String × String} (h : a.1 ∈ typeNames) :
    Closed ',' (partOf a) ∧ Closed '+' (partOf a) := by
  obtain ⟨-, hplain⟩ := typeName_plain h
  have hvalue (sep : Char) (hsep : special sep = true) (hspace : sep ≠ ' ') :
      Closed sep (escapeRdnValue a.2).toList := by
    have hclosed := closed_escapeRdnValue hsep hspace a.2.toList
    rwa [String.ofList_toList] at hclosed
  constructor
  · exact (closed_plain fun c hc => ⟨(hplain c hc).1, (hplain c hc).2.1⟩).append
      (.char (by decide) (by decide) (hvalue ',' (by decide) (by decide)))
  · exact (closed_plain fun c hc => ⟨(hplain c hc).1, (hplain c hc).2.2.1⟩).append
      (.char (by decide) (by decide) (hvalue '+' (by decide) (by decide)))

/-- An attribute is read back unless its value ends in a backslash and a space. -/
theorem parseAttribute_partOf {a : String × String} (h : a.1 ∈ typeNames)
    (hnul : '\x00' ∉ a.2.toList) :
    parseAttribute (partOf a) = if EndsInBackslashSpace a.2.toList then none
      else some (a.1.toList, .string (utf8 a.2)) := by
  obtain ⟨hdescr, hplain⟩ := typeName_plain h
  have hread := parseString_escapeRdnValue hnul
  have hhead := head_escapeRdnValue a.2.toList
  have hutf8 : utf8 a.2 = octets a.2.toList := by
    rw [← utf8_ofList, String.ofList_toList]
  rw [String.ofList_toList] at hread hhead
  rw [partOf, parseAttribute_append (fun hmem => (hplain _ hmem).2.2.2 rfl) hdescr hhead, hread,
    hutf8]
  split_ifs <;> rfl

/-- Steps that each give a value or nothing. -/
theorem mapM_ite {α β : Type} {p : α → Prop} [DecidablePred p] {g : α → β} {l : List α} :
    l.mapM (fun a => if p a then none else some (g a)) = some (l.map g) ↔ ∀ a ∈ l, ¬p a := by
  induction l with
  | nil => simp
  | cons a l ih =>
    rw [List.mapM_cons, List.forall_mem_cons, ← ih]
    by_cases ha : p a
    · simp [ha]
    · rw [if_neg ha]
      simp [ha, Option.bind_eq_some_iff]

theorem parse_toStringRfc4514 (dn : DistinguishedName)
    (hnul : ∀ a ∈ dn.attributes, '\x00' ∉ a.2.toList) :
    parse dn.toStringRfc4514.toList = dn.attributes.mapM fun a =>
      if EndsInBackslashSpace a.2.toList then none
      else some [(a.1.toList, .string (utf8 a.2))] := by
  rw [toList_toStringRfc4514]
  have hclosed : ∀ part ∈ dn.attributes.map partOf, Closed ',' part := by
    intro part hpart
    obtain ⟨a, ha, rfl⟩ := List.mem_map.mp hpart
    exact (closed_partOf (type_of_mem ha)).1
  by_cases hempty : dn.attributes = []
  · rw [hempty]
    rfl
  · have hparts : dn.attributes.map partOf ≠ [] := by simpa using hempty
    have hsplit := splitUnescaped_join (by decide) hparts hclosed
    have hne : [','].intercalate (dn.attributes.map partOf) ≠ [] := by
      intro hnil
      rw [hnil] at hsplit
      -- the empty text is one piece, but no attribute is written as nothing
      obtain ⟨a, rest, heq⟩ := List.exists_cons_of_ne_nil hempty
      rw [heq, List.map_cons, splitUnescaped] at hsplit
      have hpart := (List.cons.inj hsplit).1
      exact absurd hpart.symm (by simp [partOf])
    rw [parse, if_neg hne, hsplit]
    have hmap : ∀ attributes : List (String × String), (∀ a ∈ attributes, a ∈ dn.attributes) →
        ((attributes.map partOf).mapM fun rdn => (splitUnescaped '+' rdn).mapM parseAttribute) =
          attributes.mapM fun a => if EndsInBackslashSpace a.2.toList then none
            else some [(a.1.toList, AttributeValue.string (utf8 a.2))] := by
      intro attributes hmem
      induction attributes with
      | nil => rfl
      | cons a rest ih =>
        have ha := hmem a List.mem_cons_self
        rw [List.map_cons, List.mapM_cons, List.mapM_cons,
          ih fun b hb => hmem b (List.mem_cons_of_mem _ hb),
          splitUnescaped_closed (closed_partOf (type_of_mem ha)).2, List.mapM_cons, List.mapM_nil,
          parseAttribute_partOf (type_of_mem ha) (hnul a ha)]
        split_ifs <;> rfl
    exact hmap _ fun a ha => ha

/-- **The string of a name is faithful** exactly if no value ends in a backslash and a space. -/
theorem faithful_iff (dn : DistinguishedName) (hnul : ∀ a ∈ dn.attributes, '\x00' ∉ a.2.toList) :
    dn.Faithful ↔ ∀ a ∈ dn.attributes, ¬EndsInBackslashSpace a.2.toList := by
  rw [DistinguishedName.Faithful, parse_toStringRfc4514 dn hnul]
  exact mapM_ite

/-- A name with spaces and a number sign is read back. -/
theorem faithful_sharp : ({ commonName := some " # " } : DistinguishedName).Faithful :=
  (faithful_iff { commonName := some " # " } (by decide)).mpr (by decide)

/-- The space after a backslash stays as it is at the end, where the grammar has none. -/
theorem unescaped_space : ¬({ commonName := some "a\\ " } : DistinguishedName).Faithful := by
  rw [DistinguishedName.Faithful, parse_toStringRfc4514 _ (by decide)]
  intro h
  exact absurd (mapM_ite.mp h ("CN", "a\\ ") (by decide)) (by decide)

end Ostrich.X509
