import Ostrich.Lib.Text
import Mathlib.Tactic.SplitIfs

/-!
# The string form of distinguished names (RFC 4514)

`parse` reads a string of the grammar of section 3, and nothing else: the RDNs between the commas
that are not escaped, their attributes between the plus signs that are not escaped, and of each the
type and the value.  A value is the octets that its string stands for, or the encoding that follows
a number sign.

* `splitUnescaped_join`: texts without such a separator (`Closed`) are the pieces of the text that
  joins them;
* `parseAttribute_append`: an attribute is read from its type and the string of its value.
-/

namespace Ostrich.Rfc4514

open Text

/-! ### Values -/

/-- What may follow a backslash: `ESC / special`. -/
def isPairChar (c : Char) : Bool :=
  ['\\', '"', '+', ',', ';', '<', '>', ' ', '#', '='].contains c

/-- `stringchar`. -/
def isStringChar (c : Char) : Bool :=
  !(['\x00', '"', '+', ',', ';', '<', '>', '\\'].contains c)

/-- `leadchar`. -/
def isLeadChar (c : Char) : Bool := isStringChar c && c ≠ ' ' && c ≠ '#'

/-- `trailchar`. -/
def isTrailChar (c : Char) : Bool := isStringChar c && c ≠ ' '

/-- The value of a hexadecimal digit. -/
def hexValue (c : Char) : Option ℕ :=
  let n := c.toNat
  if 48 ≤ n ∧ n ≤ 57 then some (n - 48)
  else if 65 ≤ n ∧ n ≤ 70 then some (n - 55)
  else if 97 ≤ n ∧ n ≤ 102 then some (n - 87)
  else none

/-- `hexpair`. -/
def hexPair (c d : Char) : Option UInt8 := do
  let high ← hexValue c
  let low ← hexValue d
  return UInt8.ofNat (16 * high + low)

/-- The octets of
`string = [ ( leadchar / pair ) [ *( stringchar / pair ) ( trailchar / pair ) ] ]`;
`first` if nothing of the string was read yet. -/
def parseString (first : Bool) : List Char → Option (List UInt8)
  | [] => some []
  | c :: l =>
    if c = '\\' then
      match l with
      | [] => none
      | d :: l =>
        if isPairChar d then (String.utf8EncodeChar d ++ ·) <$> parseString false l
        else match l with
          | [] => none
          | e :: l => do
            let octet ← hexPair d e
            let octets ← parseString false l
            return octet :: octets
    else if (if first then isLeadChar c else if l = [] then isTrailChar c else isStringChar c) then
      (String.utf8EncodeChar c ++ ·) <$> parseString false l
    else none

/-- `*hexpair`. -/
def parseHexPairs : List Char → Option (List UInt8)
  | [] => some []
  | [_] => none
  | c :: d :: l => do
    let octet ← hexPair c d
    let octets ← parseHexPairs l
    return octet :: octets

inductive AttributeValue where
  | string (octets : List UInt8)
  /-- The BER encoding of the value. -/
  | hexstring (octets : List UInt8)
  deriving DecidableEq

/-- `string / hexstring`, with `hexstring = SHARP 1*hexpair`. -/
def parseValue : List Char → Option AttributeValue
  | '#' :: c :: l => .hexstring <$> parseHexPairs (c :: l)
  | l => .string <$> parseString true l

/-! ### Types -/

/-- `descr`: letters, digits and hyphens after a letter. -/
def isDescr : List Char → Bool
  | [] => false
  | c :: l => c.isAlpha && l.all fun d => d.isAlpha || d.isDigit || d = '-'

/-- `number`: no zeros in front. -/
def isNumber (l : List Char) : Bool :=
  l.all Char.isDigit && l ≠ [] && (l.head? ≠ some '0' || l.length = 1)

/-- `numericoid`. -/
def isNumericOid (l : List Char) : Bool :=
  let numbers := splitCharList '.' l
  numbers.all isNumber && 2 ≤ numbers.length

abbrev Attribute : Type := List Char × AttributeValue

/-- `attributeType EQUALS attributeValue`. -/
def parseAttribute (l : List Char) : Option Attribute :=
  let type := l.takeWhile (· ≠ '=')
  match l.dropWhile (· ≠ '=') with
  | [] => none
  | _ :: value =>
    if isDescr type || isNumericOid type then (type, ·) <$> parseValue value else none

/-! ### Names -/

/-- Put characters in front of the first piece. -/
def consFirst (front : List Char) : List (List Char) → List (List Char)
  | [] => [front]
  | piece :: pieces => (front ++ piece) :: pieces

/-- The pieces between the separators that no backslash escapes. -/
def splitUnescaped (sep : Char) : List Char → List (List Char)
  | [] => [[]]
  | c :: l =>
    if c = '\\' then
      match l with
      | [] => [[c]]
      | d :: l => consFirst [c, d] (splitUnescaped sep l)
    else if c = sep then [] :: splitUnescaped sep l
    else consFirst [c] (splitUnescaped sep l)

/-- `[ relativeDistinguishedName *( COMMA relativeDistinguishedName ) ]`. -/
def parse (l : List Char) : Option (List (List Attribute)) :=
  if l = [] then some []
  else (splitUnescaped ',' l).mapM fun rdn => (splitUnescaped '+' rdn).mapM parseAttribute

/-! ### Joining -/

/-- A text whose separators are all escaped; an escape takes the character after it. -/
inductive Closed (sep : Char) : List Char → Prop
  | nil : Closed sep []
  | char {c : Char} {l : List Char} (hc : c ≠ '\\') (hsep : c ≠ sep) (hl : Closed sep l) :
      Closed sep (c :: l)
  | escape {c : Char} {l : List Char} (hl : Closed sep l) : Closed sep ('\\' :: c :: l)

variable {sep : Char}

theorem Closed.append {l m : List Char} (hl : Closed sep l) (hm : Closed sep m) :
    Closed sep (l ++ m) := by
  induction hl with
  | nil => exact hm
  | char hc hsep _ ih => exact .char hc hsep ih
  | escape _ ih => exact .escape ih

theorem splitUnescaped_escape (c : Char) (l : List Char) :
    splitUnescaped sep ('\\' :: c :: l) = consFirst ['\\', c] (splitUnescaped sep l) := by
  rw [splitUnescaped.eq_def]
  rfl

theorem splitUnescaped_char {c : Char} (hc : c ≠ '\\') (hsep : c ≠ sep) (l : List Char) :
    splitUnescaped sep (c :: l) = consFirst [c] (splitUnescaped sep l) := by
  rw [splitUnescaped.eq_def]
  dsimp only
  rw [if_neg hc, if_neg hsep]

theorem splitUnescaped_sep (hsep : sep ≠ '\\') (l : List Char) :
    splitUnescaped sep (sep :: l) = [] :: splitUnescaped sep l := by
  rw [splitUnescaped.eq_def]
  dsimp only
  rw [if_neg hsep, if_pos rfl]

theorem splitUnescaped_closed {l : List Char} (h : Closed sep l) : splitUnescaped sep l = [l] := by
  induction h with
  | nil => rfl
  | char hc hsep _ ih =>
    rw [splitUnescaped_char hc hsep, ih]
    rfl
  | escape _ ih =>
    rw [splitUnescaped_escape, ih]
    rfl

theorem splitUnescaped_append (hsep : sep ≠ '\\') {l : List Char} (h : Closed sep l)
    (rest : List Char) :
    splitUnescaped sep (l ++ sep :: rest) = l :: splitUnescaped sep rest := by
  induction h with
  | nil => rw [List.nil_append, splitUnescaped_sep hsep]
  | char hc hne _ ih =>
    rw [List.cons_append, splitUnescaped_char hc hne, ih]
    rfl
  | escape _ ih =>
    rw [List.cons_append, List.cons_append, splitUnescaped_escape, ih]
    rfl

/-- **Closed texts are the pieces** of the text in which separators join them. -/
theorem splitUnescaped_join (hsep : sep ≠ '\\') :
    ∀ {parts : List (List Char)}, parts ≠ [] → (∀ part ∈ parts, Closed sep part) →
      splitUnescaped sep ([sep].intercalate parts) = parts
  | [], h, _ => absurd rfl h
  | [part], _, hclosed => by
    rw [List.intercalate_singleton, splitUnescaped_closed (hclosed part List.mem_cons_self)]
  | part :: next :: rest, _, hclosed => by
    rw [List.intercalate_cons_cons, List.append_assoc, List.singleton_append,
      splitUnescaped_append hsep (hclosed part List.mem_cons_self),
      splitUnescaped_join hsep (List.cons_ne_nil next rest) fun p hp =>
        hclosed p (List.mem_cons_of_mem part hp)]

/-! ### Reading -/

/-- An escaped character, at any place of a string. -/
theorem parseString_pair (first : Bool) {c : Char} (hc : isPairChar c = true) (l : List Char) :
    parseString first ('\\' :: c :: l) =
      (String.utf8EncodeChar c ++ ·) <$> parseString false l := by
  rw [parseString.eq_def]
  dsimp only
  rw [if_pos rfl, if_pos hc]

theorem ne_backslash_of_isStringChar {c : Char} (h : isStringChar c = true) : c ≠ '\\' := by
  rintro rfl
  exact absurd h (by decide)

/-- The first character of a string. -/
theorem parseString_lead {c : Char} (hc : isLeadChar c = true) (l : List Char) :
    parseString true (c :: l) = (String.utf8EncodeChar c ++ ·) <$> parseString false l := by
  have hstring : isStringChar c = true := by
    simp only [isLeadChar, Bool.and_eq_true] at hc
    exact hc.1.1
  rw [parseString.eq_def]
  dsimp only
  rw [if_neg (ne_backslash_of_isStringChar hstring), if_pos (by rw [if_pos rfl]; exact hc)]

/-- A later character that is not the last one. -/
theorem parseString_char {c : Char} (hc : isStringChar c = true) {l : List Char} (hl : l ≠ []) :
    parseString false (c :: l) = (String.utf8EncodeChar c ++ ·) <$> parseString false l := by
  rw [parseString.eq_def]
  dsimp only
  rw [if_neg (ne_backslash_of_isStringChar hc),
    if_pos (by rw [if_neg Bool.false_ne_true, if_neg hl]; exact hc)]

/-- The last character of a string. -/
theorem parseString_trail {c : Char} (hc : isTrailChar c = true) :
    parseString false [c] = some (String.utf8EncodeChar c) := by
  have hstring : isStringChar c = true := by
    simp only [isTrailChar, Bool.and_eq_true] at hc
    exact hc.1
  rw [parseString.eq_def]
  dsimp only
  rw [if_neg (ne_backslash_of_isStringChar hstring),
    if_pos (by rw [if_neg Bool.false_ne_true, if_pos rfl]; exact hc), parseString.eq_def]
  simp

/-- An attribute is read from its type and the string of its value. -/
theorem parseAttribute_append {type value : List Char} (htype : '=' ∉ type)
    (hdescr : isDescr type = true) (hvalue : value.head? ≠ some '#') :
    parseAttribute (type ++ '=' :: value) = (fun octets => (type, .string octets)) <$>
      parseString true value := by
  have hall : ∀ c ∈ type, decide (c ≠ '=') = true :=
    fun c hc => decide_eq_true fun heq => htype (heq ▸ hc)
  have htake : (type ++ '=' :: value).takeWhile (· ≠ '=') = type := by
    rw [List.takeWhile_append_of_pos hall]
    simp
  have hdrop : (type ++ '=' :: value).dropWhile (· ≠ '=') = '=' :: value := by
    rw [List.dropWhile_append_of_pos hall]
    simp
  have hstring : parseValue value = .string <$> parseString true value := by
    unfold parseValue
    split
    · exact absurd rfl hvalue
    · rfl
  unfold parseAttribute
  dsimp only
  rw [htake, hdrop]
  dsimp only
  rw [hdescr, Bool.true_or, if_pos rfl, hstring]
  cases parseString true value <;> rfl

end Ostrich.Rfc4514
