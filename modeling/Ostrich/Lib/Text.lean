import Mathlib.Algebra.Group.Nat.Defs
import Mathlib.Data.List.Basic
import Mathlib.Data.List.Induction
import Mathlib.Data.List.TakeDrop
import Mathlib.Tactic.Common

/-!
# Strings

The operations of a string library that work on the characters of a string, each through
`String.toList`, with the lemmas that reduce them to lists.

* `toAsciiLowercase`, `eqIgnoreAsciiCase`: case folding of the ASCII letters only;
* `stripPrefix s p`: what follows `p` in `s`, if `s` starts with `p`; `trimStartMatches s p` strips
  `p` as often as it stands there;
* `parseU32 s`: the decimal number `s`;
* `splitChar c s`: the pieces of `s` between the occurrences of `c` (never the empty list);
* `splitOnce c s`: what is before and after the first `c`;
* `trim s`: `s` without the white space at its ends;
* `utf8 s`: the bytes of `s`;
* `hexFixed k n`, `decFixed k n`: the last `k` digits of `n`.
-/

namespace Ostrich.Text

/-! ### Case folding -/

/-- Lower the ASCII letters of `s`. -/
def toAsciiLowercase (s : String) : String := String.ofList (s.toList.map Char.toLower)

@[simp] theorem toList_toAsciiLowercase (s : String) :
    (toAsciiLowercase s).toList = s.toList.map Char.toLower := by
  rw [toAsciiLowercase, String.toList_ofList]

theorem toLower_of_upper {c : Char} (h : c.val ≥ 'A'.val ∧ c.val ≤ 'Z'.val) :
    c.toLower.val = c.val + ('a'.val - 'A'.val) := by
  show (dite _ _ _ : Char).val = _
  rw [dif_pos h]

theorem toLower_of_not_upper {c : Char} (h : ¬(c.val ≥ 'A'.val ∧ c.val ≤ 'Z'.val)) :
    c.toLower = c := by
  show dite _ _ _ = _
  rw [dif_neg h]

theorem Char.toLower_toLower (c : Char) : c.toLower.toLower = c.toLower := by
  by_cases h : c.val ≥ 'A'.val ∧ c.val ≤ 'Z'.val
  · have hc := toLower_of_upper h
    have hn : ¬(c.toLower.val ≥ 'A'.val ∧ c.toLower.val ≤ 'Z'.val) := by
      rw [hc]
      have h1 : 65 ≤ c.val.toNat := h.1
      have h2 : c.val.toNat ≤ 90 := h.2
      rintro ⟨-, h4⟩
      have h4' : (c.val + ('a'.val - 'A'.val)).toNat ≤ 90 := h4
      have h5 : (c.val + ('a'.val - 'A'.val)).toNat = c.val.toNat + 32 := by
        rw [UInt32.toNat_add]
        have h6 : ('a'.val - 'A'.val).toNat = 32 := by decide
        rw [h6]
        omega
      omega
    exact toLower_of_not_upper hn
  · have hc := toLower_of_not_upper h
    rw [hc, hc]

theorem toAsciiLowercase_idem (s : String) :
    toAsciiLowercase (toAsciiLowercase s) = toAsciiLowercase s := by
  rw [← String.toList_inj]
  simp [Function.comp_def, Char.toLower_toLower]

/-! ### Prefixes -/

/-- What follows `p` in `l`. -/
def stripPrefixList : List Char → List Char → Option (List Char)
  | l, [] => some l
  | [], _ :: _ => none
  | a :: l, b :: p => if a = b then stripPrefixList l p else none

/-- What follows `p` in `s`, if `s` starts with `p`. -/
def stripPrefix (s p : String) : Option String :=
  (stripPrefixList s.toList p.toList).map String.ofList

theorem stripPrefixList_eq_some : ∀ {l p r : List Char},
    stripPrefixList l p = some r ↔ l = p ++ r
  | l, [], r => by simp [stripPrefixList]
  | [], b :: p, r => by simp [stripPrefixList]
  | a :: l, b :: p, r => by
    rw [stripPrefixList]
    split_ifs with h
    · rw [stripPrefixList_eq_some, h]
      simp
    · simp [h]

theorem stripPrefix_eq_some {s p r : String} : stripPrefix s p = some r ↔ s = p ++ r := by
  rw [stripPrefix, Option.map_eq_some_iff]
  constructor
  · rintro ⟨l, hl, rfl⟩
    rw [← String.toList_inj, String.toList_append, String.toList_ofList]
    exact stripPrefixList_eq_some.mp hl
  · intro h
    refine ⟨r.toList, stripPrefixList_eq_some.mpr ?_, String.ofList_toList⟩
    rw [h, String.toList_append]

theorem stripPrefix_append (p r : String) : stripPrefix (p ++ r) p = some r :=
  stripPrefix_eq_some.mpr rfl

/-- A text does not start with a prefix that has another first character. -/
theorem stripPrefix_eq_none {p q : String} (h : p.toList.head? ≠ q.toList.head?)
    (hp : p.toList ≠ []) (hq : q.toList ≠ []) (r : String) : stripPrefix (p ++ r) q = none := by
  rw [Option.eq_none_iff_forall_not_mem]
  intro r' hr'
  have heq := congrArg (fun s => s.toList.head?) (stripPrefix_eq_some.mp hr')
  simp only [String.toList_append] at heq
  rw [List.head?_append_of_ne_nil _ hp, List.head?_append_of_ne_nil _ hq] at heq
  exact h heq

/-- What is left of `l` when `p` is stripped as often as it stands there, at most `fuel` times. -/
def trimStartMatchesList (p : List Char) : ℕ → List Char → List Char
  | 0, l => l
  | fuel + 1, l =>
    match stripPrefixList l p with
    | some rest => trimStartMatchesList p fuel rest
    | none => l

/-- `str::trim_start_matches` for a pattern that is not empty. -/
def trimStartMatches (s p : String) : String :=
  String.ofList (trimStartMatchesList p.toList s.toList.length s.toList)

/-! ### Decimal numbers -/

/-- The number of these digits after `acc`. -/
def parseDigits : ℕ → List Char → Option ℕ
  | acc, [] => some acc
  | acc, c :: rest => if c.isDigit then parseDigits (acc * 10 + (c.toNat - 48)) rest else none

/-- `str::parse::<u32>`: digits after an optional plus sign. -/
def parseU32 (s : String) : Option ℕ :=
  let digits := match s.toList with
    | '+' :: rest => rest
    | l => l
  if digits = [] then none
  else (parseDigits 0 digits).filter (· < 2 ^ 32)

/-- Digits are read as the number they denote. -/
theorem parseDigits_eq (acc : ℕ) (l : List Char) :
    parseDigits acc l = if l.all Char.isDigit then some (Nat.ofDigitChars 10 l acc) else none := by
  induction l generalizing acc with
  | nil => rfl
  | cons c l ih =>
    rw [parseDigits, List.all_cons]
    by_cases hc : c.isDigit
    · rw [if_pos hc, ih, hc, Bool.true_and, Nat.ofDigitChars_cons, Nat.mul_comm 10 acc]
      rfl
    · have hfalse : c.isDigit = false := Bool.eq_false_iff.mpr hc
      rw [if_neg hc, hfalse, Bool.false_and]
      rfl

/-- The number that a text of decimal digits denotes. -/
def decimal (s : String) : Option ℕ :=
  if s.isEmpty then none else parseDigits 0 s.toList

theorem isDigit_of_decimal {s : String} {n : ℕ} (h : decimal s = some n) :
    ∀ c ∈ s.toList, c.isDigit := by
  unfold decimal at h
  split_ifs at h
  rw [parseDigits_eq] at h
  split_ifs at h with hall
  exact List.all_eq_true.mp hall

theorem decimal_toString (n : ℕ) : decimal (toString n) = some n := by
  have hlist : (toString n).toList = Nat.toDigits 10 n := Nat.toList_repr
  have hempty : ¬ (toString n).isEmpty := by
    rw [String.isEmpty_iff, ← String.toList_inj, hlist]
    exact Nat.toDigits_ne_nil
  have hall : (Nat.toDigits 10 n).all Char.isDigit := by
    rw [List.all_eq_true]
    exact fun c hc => Nat.isDigit_of_mem_toDigits (by decide) (by decide) hc
  rw [decimal, if_neg hempty, parseDigits_eq, hlist, if_pos hall, Nat.ofDigitChars_ten_toDigits]

theorem decimal_cons_plus {s : String} {l : List Char} (h : s.toList = '+' :: l) :
    decimal s = none := by
  unfold decimal
  split
  · rfl
  · rw [h]
    rfl

/-- The library reads a number with or without a plus sign. -/
theorem parseU32_eq_some {s : String} {n : ℕ} : parseU32 s = some n ↔
    n < 2 ^ 32 ∧ (decimal s = some n ∨ ∃ digits, s = "+" ++ digits ∧ decimal digits = some n) := by
  have hempty (t : String) : t.isEmpty = true ↔ t.toList = [] := by
    rw [String.isEmpty_iff, ← String.toList_inj]
    rfl
  have hread (t : String) : (if t.toList = [] then none
      else (parseDigits 0 t.toList).filter (· < 2 ^ 32)) = some n ↔
      n < 2 ^ 32 ∧ decimal t = some n := by
    unfold decimal
    by_cases ht : t.toList = []
    · simp [ht, (hempty t).mpr ht]
    · have hne : ¬ t.isEmpty = true := fun h => ht ((hempty t).mp h)
      rw [if_neg ht, if_neg hne, Option.filter_eq_some_iff, and_comm, decide_eq_true_iff]
  unfold parseU32
  split
  · rename_i rest hplus
    have hdigits := hread (String.ofList rest)
    rw [String.toList_ofList] at hdigits
    show (if rest = [] then none else (parseDigits 0 rest).filter (· < 2 ^ 32)) = some n ↔ _
    rw [hdigits, decimal_cons_plus hplus]
    apply and_congr_right
    intro _
    constructor
    · intro h
      refine .inr ⟨String.ofList rest, ?_, h⟩
      rw [← String.toList_inj, String.toList_append, hplus]
      simp
    · rintro (h | ⟨digits, hsplit, h⟩)
      · cases h
      · have hrest : rest = digits.toList := by
          rw [hsplit, String.toList_append] at hplus
          exact (List.cons.inj hplus).2.symm
        rwa [hrest, String.ofList_toList]
  · rename_i hplus
    have hmatch : (match s.toList with | '+' :: rest => rest | l => l) = s.toList := by
      split
      · rename_i rest heq
        exact absurd heq (hplus rest)
      · rfl
    dsimp only
    rw [hmatch, hread s]
    apply and_congr_right
    intro _
    refine ⟨.inl, ?_⟩
    rintro (h | ⟨digits, hsplit, -⟩)
    · exact h
    · exact absurd (by rw [hsplit, String.toList_append]; rfl) (hplus digits.toList)

/-! ### Splitting -/

/-- The pieces of a list between the occurrences of `c`. -/
def splitCharList (c : Char) : List Char → List (List Char)
  | [] => [[]]
  | a :: l =>
    if a = c then [] :: splitCharList c l
    else match splitCharList c l with
      | [] => [[a]]
      | piece :: rest => (a :: piece) :: rest

/-- The pieces of `s` between the occurrences of `c`. -/
def splitChar (c : Char) (s : String) : List String := (splitCharList c s.toList).map String.ofList

/-- A piece without separators stays one. -/
theorem splitCharList_of_not_mem {c : Char} : ∀ {l : List Char}, c ∉ l → splitCharList c l = [l]
  | [], _ => rfl
  | a :: l, h => by
    have ha : a ≠ c := fun heq => h (heq ▸ List.mem_cons_self)
    have hl := splitCharList_of_not_mem fun hc => h (List.mem_cons_of_mem a hc)
    rw [splitCharList, if_neg ha, hl]

theorem splitCharList_append {c : Char} (l : List Char) : ∀ {piece : List Char}, c ∉ piece →
    splitCharList c (piece ++ c :: l) = piece :: splitCharList c l
  | [], _ => by rw [List.nil_append, splitCharList, if_pos rfl]
  | a :: piece, h => by
    have ha : a ≠ c := fun heq => h (heq ▸ List.mem_cons_self)
    have hl := splitCharList_append l fun hc => h (List.mem_cons_of_mem a hc)
    rw [List.cons_append, splitCharList, if_neg ha, hl]

/-- Pieces without separators are the pieces of the text in which separators join them. -/
theorem splitCharList_join {c : Char} {first : List Char} {rest : List (List Char)}
    (hfirst : c ∉ first) (hrest : ∀ piece ∈ rest, c ∉ piece) :
    splitCharList c (first ++ rest.flatMap (c :: ·)) = first :: rest := by
  induction rest generalizing first with
  | nil => rw [List.flatMap_nil, List.append_nil, splitCharList_of_not_mem hfirst]
  | cons piece rest ih =>
    rw [List.flatMap_cons, List.cons_append, splitCharList_append _ hfirst,
      ih (hrest piece List.mem_cons_self) fun p hp => hrest p (List.mem_cons_of_mem _ hp)]

/-- Separators join the pieces of a text to the text. -/
theorem exists_splitCharList (c : Char) (l : List Char) : ∃ first rest,
    splitCharList c l = first :: rest ∧ l = first ++ rest.flatMap (c :: ·) := by
  induction l with
  | nil => exact ⟨[], [], rfl, rfl⟩
  | cons a l ih =>
    obtain ⟨first, rest, hsplit, hjoin⟩ := ih
    rw [splitCharList]
    by_cases ha : a = c
    · refine ⟨[], first :: rest, by rw [if_pos ha, hsplit], ?_⟩
      rw [List.flatMap_cons, List.nil_append, List.cons_append, ← hjoin, ha]
    · refine ⟨a :: first, rest, by rw [if_neg ha, hsplit], ?_⟩
      rw [List.cons_append, ← hjoin]

theorem toList_of_splitChar {c : Char} {s first : String} {rest : List String}
    (h : splitChar c s = first :: rest) :
    s.toList = first.toList ++ (rest.map String.toList).flatMap (c :: ·) := by
  obtain ⟨piece, pieces, hsplit, hjoin⟩ := exists_splitCharList c s.toList
  rw [splitChar, hsplit, List.map_cons, List.cons.injEq] at h
  obtain ⟨rfl, rfl⟩ := h
  have hpieces : (pieces.map String.ofList).map String.toList = pieces := by
    rw [List.map_map]
    conv_rhs => rw [← List.map_id pieces]
    apply List.map_congr_left
    intro piece _
    exact String.toList_ofList
  rw [hpieces, String.toList_ofList]
  exact hjoin

/-- The text before the first `c` and the text after it. -/
def splitOnce (c : Char) (s : String) : Option (String × String) :=
  match s.toList.span (· ≠ c) with
  | (_, []) => none
  | (kind, _ :: value) => some (String.ofList kind, String.ofList value)

/-- The Unicode property `White_Space`. -/
def isWhitespace (c : Char) : Bool :=
  let n := c.toNat
  (9 ≤ n && n ≤ 13) || n = 0x20 || n = 0x85 || n = 0xA0 || n = 0x1680
    || (0x2000 ≤ n && n ≤ 0x200A) || n = 0x2028 || n = 0x2029 || n = 0x202F || n = 0x205F
    || n = 0x3000

/-- Drop the white space at both ends. -/
def trimList (l : List Char) : List Char :=
  ((l.dropWhile isWhitespace).reverse.dropWhile isWhitespace).reverse

/-- Drop the white space at both ends. -/
def trim (s : String) : String := String.ofList (trimList s.toList)

theorem trim_of_all {s : String} (h : ∀ c ∈ s.toList, isWhitespace c = false) : trim s = s := by
  have hdrop (l : List Char) (hl : ∀ c ∈ l, isWhitespace c = false) :
      l.dropWhile isWhitespace = l := by
    cases l with
    | nil => rfl
    | cons c l =>
      exact List.dropWhile_cons_of_neg (by rw [hl c List.mem_cons_self]; exact Bool.false_ne_true)
  rw [trim, trimList, hdrop _ h, hdrop _ fun c hc => h c (List.mem_reverse.mp hc),
    List.reverse_reverse, String.ofList_toList]

/-- A character is a separator or in a piece. -/
theorem mem_of_splitCharList {c x : Char} : ∀ {l : List Char}, x ∈ l →
    x = c ∨ ∃ piece ∈ splitCharList c l, x ∈ piece
  | a :: l, hx => by
    rw [splitCharList]
    rcases List.mem_cons.mp hx with rfl | hx
    · split_ifs with ha
      · exact .inl ha
      · right
        split
        · exact ⟨[x], List.mem_singleton_self _, List.mem_singleton_self _⟩
        · exact ⟨_, List.mem_cons_self .., List.mem_cons_self ..⟩
    · rcases mem_of_splitCharList hx with h | ⟨piece, hpiece, hmem⟩
      · exact .inl h
      · right
        split_ifs with ha
        · exact ⟨piece, List.mem_cons_of_mem _ hpiece, hmem⟩
        · split
          · rename_i hnil
            rw [hnil] at hpiece
            cases hpiece
          · rename_i first rest hcons
            rw [hcons] at hpiece
            rcases List.mem_cons.mp hpiece with rfl | hpiece
            · exact ⟨_, List.mem_cons_self .., List.mem_cons_of_mem _ hmem⟩
            · exact ⟨piece, List.mem_cons_of_mem _ hpiece, hmem⟩

/-! ### Sizes -/

theorem length_ofList_le (l : List Char) : l.length ≤ (String.ofList l).utf8ByteSize := by
  induction l using List.reverseRecOn with
  | nil => exact Nat.zero_le _
  | append_singleton l c ih =>
    have hpush : String.ofList (l ++ [c]) = (String.ofList l).push c := by
      rw [← String.toList_inj, String.toList_push, String.toList_ofList, String.toList_ofList]
    have hc : 1 ≤ c.utf8Size := Char.utf8Size_pos c
    rw [hpush, String.utf8ByteSize_push, List.length_append, List.length_singleton]
    omega

/-- ASCII characters take one byte each. -/
theorem utf8ByteSize_of_ascii {l : List Char} (h : ∀ c ∈ l, c.toNat < 128) :
    (String.ofList l).utf8ByteSize = l.length := by
  induction l using List.reverseRecOn with
  | nil => rfl
  | append_singleton l c ih =>
    have hpush : String.ofList (l ++ [c]) = (String.ofList l).push c := by
      rw [← String.toList_inj, String.toList_push, String.toList_ofList, String.toList_ofList]
    have hc : c.val ≤ 0x7F := by
      rw [UInt32.le_iff_toNat_le]
      have hlt : c.val.toNat < 128 := h c (List.mem_append_right _ (List.mem_singleton_self c))
      exact Nat.le_of_lt_succ hlt
    have hsize : c.utf8Size = 1 := if_pos hc
    rw [hpush, String.utf8ByteSize_push, hsize, ih fun d hd => h d (List.mem_append_left _ hd),
      List.length_append, List.length_singleton]

theorem length_toList_le (s : String) : s.toList.length ≤ s.utf8ByteSize := by
  have := length_ofList_le s.toList
  rwa [String.ofList_toList] at this

/-! ### Bytes -/

/-- The UTF-8 bytes of a string. -/
def utf8 (s : String) : List UInt8 := s.toUTF8.data.toList

theorem utf8_injective {s t : String} (h : utf8 s = utf8 t) : s = t := by
  unfold utf8 at h
  have hdata : s.toUTF8.data = t.toUTF8.data := Array.toList_inj.mp h
  exact String.toByteArray_inj.mp (ByteArray.ext hdata)

@[simp] theorem utf8_empty : utf8 "" = [] := rfl

theorem utf8_append (s t : String) : utf8 (s ++ t) = utf8 s ++ utf8 t := by
  show (s ++ t).toByteArray.data.toList = _
  rw [String.toByteArray_append, ByteArray.toList_data_append]
  rfl

/-! ### Separators -/

theorem eq_of_append_cons {α : Type} {c : α} : ∀ {a b r s : List α}, c ∉ a → c ∉ b →
    a ++ c :: r = b ++ c :: s → a = b ∧ r = s
  | [], [], _, _, _, _, h => ⟨rfl, (List.cons.inj h).2⟩
  | [], y :: b, _, _, _, hb, h => absurd ((List.cons.inj h).1 ▸ List.mem_cons_self ..) hb
  | x :: a, [], _, _, ha, _, h => absurd ((List.cons.inj h).1 ▸ List.mem_cons_self ..) ha
  | x :: a, y :: b, _, _, ha, hb, h => by
    obtain ⟨hxy, htail⟩ := List.cons.inj h
    obtain ⟨hab, hrs⟩ := eq_of_append_cons (fun hc => ha (List.mem_cons_of_mem _ hc))
      (fun hc => hb (List.mem_cons_of_mem _ hc)) htail
    exact ⟨by rw [hxy, hab], hrs⟩

/-! ### Digits -/

/-- The hexadecimal digit `d < 16`. -/
def hexDigit (d : ℕ) : Char := if d < 10 then Char.ofNat (48 + d) else Char.ofNat (87 + d)

/-- The last `k` hexadecimal digits of `n`, most significant first. -/
def hexFixed : ℕ → ℕ → List Char
  | 0, _ => []
  | k + 1, n => hexFixed k (n / 16) ++ [hexDigit (n % 16)]

@[simp] theorem length_hexFixed : ∀ k n, (hexFixed k n).length = k
  | 0, _ => rfl
  | k + 1, n => by rw [hexFixed, List.length_append, length_hexFixed k]; rfl

theorem hexDigit_injective {a b : ℕ} (ha : a < 16) (hb : b < 16) (h : hexDigit a = hexDigit b) :
    a = b := by
  have hall : ∀ a < 16, ∀ b < 16, hexDigit a = hexDigit b → a = b := by decide
  exact hall a ha b hb h

/-- `hexFixed k` tells the numbers below `16 ^ k` apart. -/
theorem hexFixed_injective : ∀ (k : ℕ) {a b : ℕ}, a < 16 ^ k → b < 16 ^ k →
    hexFixed k a = hexFixed k b → a = b := by
  intro k
  induction k with
  | zero => intro a b ha hb _; omega
  | succ k ih =>
    intro a b ha hb h
    rw [hexFixed, hexFixed] at h
    obtain ⟨hinit, hlast⟩ := List.append_inj' h rfl
    have hdigit := hexDigit_injective (Nat.mod_lt a (by decide)) (Nat.mod_lt b (by decide))
      (List.singleton_inj.mp hlast)
    have hquot := ih (a := a / 16) (b := b / 16) (by omega) (by omega) hinit
    omega

theorem hexDigit_ne {c : Char} (hc : c.toNat < 48) {d : ℕ} (hd : d < 16) : hexDigit d ≠ c := by
  have hall : ∀ d < 16, 48 ≤ (hexDigit d).toNat := by decide
  rintro rfl
  have := hall d hd
  omega

theorem ne_of_mem_hexFixed {c : Char} (hc : c.toNat < 48) : ∀ (k n : ℕ), ∀ d ∈ hexFixed k n, d ≠ c
  | 0, _, d, h => by simp [hexFixed] at h
  | k + 1, n, d, h => by
    rw [hexFixed, List.mem_append] at h
    rcases h with h | h
    · exact ne_of_mem_hexFixed hc k _ d h
    · rw [List.mem_singleton.mp h]
      exact hexDigit_ne hc (Nat.mod_lt n (by decide))

/-- The last `k` decimal digits of `n`, most significant first. -/
def decFixed : ℕ → ℕ → List Char
  | 0, _ => []
  | k + 1, n => decFixed k (n / 10) ++ [hexDigit (n % 10)]

@[simp] theorem length_decFixed : ∀ k n, (decFixed k n).length = k
  | 0, _ => rfl
  | k + 1, n => by rw [decFixed, List.length_append, length_decFixed k]; rfl

/-- `decFixed k` tells the numbers below `10 ^ k` apart. -/
theorem decFixed_injective : ∀ (k : ℕ) {a b : ℕ}, a < 10 ^ k → b < 10 ^ k →
    decFixed k a = decFixed k b → a = b := by
  intro k
  induction k with
  | zero => intro a b ha hb _; omega
  | succ k ih =>
    intro a b ha hb h
    rw [decFixed, decFixed] at h
    obtain ⟨hinit, hlast⟩ := List.append_inj' h rfl
    have hdigit : a % 10 = b % 10 := hexDigit_injective (by omega) (by omega)
      (List.singleton_inj.mp hlast)
    have hquot : a / 10 = b / 10 := ih (by omega) (by omega) hinit
    omega

/-- Decimal digits are digits. -/
theorem mem_decFixed : ∀ (k n : ℕ), ∀ c ∈ decFixed k n, 48 ≤ c.toNat ∧ c.toNat ≤ 57
  | 0, _, c, h => by simp [decFixed] at h
  | k + 1, n, c, h => by
    rw [decFixed, List.mem_append] at h
    rcases h with h | h
    · exact mem_decFixed k _ c h
    · have hall : ∀ d < 10, 48 ≤ (hexDigit d).toNat ∧ (hexDigit d).toNat ≤ 57 := by decide
      rw [List.mem_singleton.mp h]
      exact hall _ (Nat.mod_lt n (by decide))

end Ostrich.Text
