import Mathlib.Data.List.DropRight
import Mathlib.Data.Nat.Notation
import Mathlib.Tactic.SplitIfs

/-!
# Texts with backslash escapes

A text is a list of tokens: a byte that stands for itself, a backslash and a special character, or a
backslash and two hexadecimal digits.  `Reads special s ts` says that `s` is the text of `ts`.

`text_append_inj`: if no hexadecimal digit is special, a text that begins with whole tokens is read
as these tokens first, so it is read in one way (`Reads.unique`).
`even_backslashes`: a text ends in an even number of backslashes.
-/

namespace Ostrich.Escaped

/-- The escape character. -/
def backslash : UInt8 := 0x5c

/-- `u8::is_ascii_hexdigit`. -/
def isHexDigit (b : UInt8) : Bool :=
  (0x30 ≤ b && b ≤ 0x39) || (0x41 ≤ b && b ≤ 0x46) || (0x61 ≤ b && b ≤ 0x66)

/-- The value of a hexadecimal digit. -/
def hexValue (b : UInt8) : UInt8 :=
  if b ≤ 0x39 then b - 0x30 else if b ≤ 0x46 then b - 0x37 else b - 0x57

/-- A piece of a text that stands for one byte. -/
inductive Token where
  | plain (b : UInt8)
  | char (c : UInt8)
  | hex (h l : UInt8)
  deriving DecidableEq

namespace Token

def text : Token → List UInt8
  | plain b => [b]
  | char c => [backslash, c]
  | hex h l => [backslash, h, l]

/-- The byte a token stands for. -/
def byte : Token → UInt8
  | plain b => b
  | char c => c
  | hex h l => hexValue h <<< 4 ||| hexValue l

def IsEscape : Token → Bool
  | plain _ => false
  | _ => true

/-- The token is written as it is read. -/
def Ok (special : UInt8 → Bool) : Token → Prop
  | plain b => b ≠ backslash
  | char c => special c = true
  | hex h l => isHexDigit h = true ∧ isHexDigit l = true

end Token

def text (ts : List Token) : List UInt8 := ts.flatMap Token.text

/-- The bytes the tokens stand for. -/
def bytes (ts : List Token) : List UInt8 := ts.map Token.byte

/-- `s` is the text of the tokens `ts`. -/
def Reads (special : UInt8 → Bool) (s : List UInt8) (ts : List Token) : Prop :=
  (∀ t ∈ ts, t.Ok special) ∧ text ts = s

@[simp] theorem text_nil : text [] = [] := rfl

@[simp] theorem text_cons (t : Token) (ts : List Token) : text (t :: ts) = t.text ++ text ts := rfl

@[simp] theorem text_append (ts us : List Token) : text (ts ++ us) = text ts ++ text us :=
  List.flatMap_append

@[simp] theorem bytes_append (ts us : List Token) : bytes (ts ++ us) = bytes ts ++ bytes us :=
  List.map_append

theorem text_ne_nil (t : Token) : t.text ≠ [] := by
  cases t <;> exact List.cons_ne_nil _ _

variable {special : UInt8 → Bool}

theorem Reads.cons {t : Token} (ht : t.Ok special) {s : List UInt8} {ts : List Token}
    (h : Reads special s ts) : Reads special (t.text ++ s) (t :: ts) := by
  refine ⟨?_, by rw [text_cons, h.2]⟩
  intro u hu
  rcases List.mem_cons.1 hu with rfl | hu
  · exact ht
  · exact h.1 u hu

/-! ### One reading -/

/-- Two tokens that begin one text are the same. -/
theorem text_token_inj (hspecial : ∀ c, special c = true → isHexDigit c = false) {t u : Token}
    (ht : t.Ok special) (hu : u.Ok special) {x y : List UInt8} (h : t.text ++ x = u.text ++ y) :
    t = u ∧ x = y := by
  cases t with
  | plain b =>
    cases u with
    | plain b' =>
      obtain ⟨rfl, rfl⟩ := List.cons.inj h
      exact ⟨rfl, rfl⟩
    | char c => exact absurd (List.cons.inj h).1 ht
    | hex g l => exact absurd (List.cons.inj h).1 ht
  | char c =>
    cases u with
    | plain b' => exact absurd (List.cons.inj h).1.symm hu
    | char c' =>
      obtain ⟨rfl, rfl⟩ := List.cons.inj (List.cons.inj h).2
      exact ⟨rfl, rfl⟩
    | hex g l =>
      obtain ⟨rfl, -⟩ := List.cons.inj (List.cons.inj h).2
      have hno := hspecial c ht
      rw [hu.1] at hno
      cases hno
  | hex g l =>
    cases u with
    | plain b' => exact absurd (List.cons.inj h).1.symm hu
    | char c' =>
      obtain ⟨rfl, -⟩ := List.cons.inj (List.cons.inj h).2
      have hno := hspecial g hu
      rw [ht.1] at hno
      cases hno
    | hex g' l' =>
      obtain ⟨rfl, hrest⟩ := List.cons.inj (List.cons.inj h).2
      obtain ⟨rfl, rfl⟩ := List.cons.inj hrest
      exact ⟨rfl, rfl⟩

/-- A text that begins with whole tokens is read as these tokens first. -/
theorem text_append_inj (hspecial : ∀ c, special c = true → isHexDigit c = false) :
    ∀ {ts us : List Token} {x : List UInt8}, (∀ t ∈ ts, t.Ok special) → (∀ u ∈ us, u.Ok special) →
      text us = text ts ++ x → ∃ rest, us = ts ++ rest ∧ text rest = x
  | [], us, x, _, _, h => ⟨us, rfl, h⟩
  | t :: ts, [], x, _, _, h => by
    rw [text_nil, text_cons, List.append_assoc] at h
    have hnil := List.append_eq_nil_iff.1 h.symm
    exact absurd hnil.1 (text_ne_nil t)
  | t :: ts, u :: us, x, hts, hus, h => by
    rw [text_cons, text_cons, List.append_assoc] at h
    obtain ⟨rfl, hrest⟩ := text_token_inj hspecial (hus u (by simp)) (hts t (by simp)) h
    obtain ⟨rest, rfl, hx⟩ := text_append_inj hspecial
      (fun s hs => hts s (List.mem_cons_of_mem _ hs))
      (fun s hs => hus s (List.mem_cons_of_mem _ hs)) hrest
    exact ⟨rest, rfl, hx⟩

theorem Reads.unique (hspecial : ∀ c, special c = true → isHexDigit c = false) {s : List UInt8}
    {ts us : List Token} (h : Reads special s ts) (h' : Reads special s us) : us = ts := by
  obtain ⟨rest, hus, hrest⟩ := text_append_inj hspecial h.1 h'.1 (x := []) (by
    rw [h.2, h'.2, List.append_nil])
  cases rest with
  | nil => rw [hus, List.append_nil]
  | cons t rest =>
    have hnil := List.append_eq_nil_iff.1 hrest
    exact absurd hnil.1 (text_ne_nil t)

/-- Half an escape is no text. -/
theorem text_ne_append_backslash (hspecial : ∀ c, special c = true → isHexDigit c = false)
    {ts us : List Token} (hts : ∀ t ∈ ts, t.Ok special) (hus : ∀ u ∈ us, u.Ok special) :
    text us ≠ text ts ++ [backslash] := by
  intro h
  obtain ⟨rest, rfl, hrest⟩ := text_append_inj hspecial hts hus h
  cases rest with
  | nil => cases hrest
  | cons t rest =>
    have ht := hus t (by simp)
    rw [text_cons] at hrest
    cases t with
    | plain b => exact ht (List.cons.inj hrest).1
    | char c => cases (List.cons.inj hrest).2
    | hex h l => cases (List.cons.inj hrest).2

/-- What follows a backslash on its own is escaped by it. -/
theorem text_append_backslash (hspecial : ∀ c, special c = true → isHexDigit c = false)
    {ts us : List Token} {c : UInt8} {x : List UInt8} (hc : isHexDigit c = false)
    (hts : ∀ t ∈ ts, t.Ok special) (hus : ∀ u ∈ us, u.Ok special)
    (h : text us = text ts ++ backslash :: c :: x) :
    ∃ rest, us = ts ++ .char c :: rest ∧ text rest = x := by
  obtain ⟨rest, rfl, hrest⟩ := text_append_inj hspecial hts hus h
  cases rest with
  | nil => cases hrest
  | cons t rest =>
    have ht := hus t (by simp)
    rw [text_cons] at hrest
    cases t with
    | plain b => exact absurd (List.cons.inj hrest).1 ht
    | char c' =>
      obtain ⟨rfl, hx⟩ := List.cons.inj (List.cons.inj hrest).2
      exact ⟨rest, rfl, hx⟩
    | hex g l =>
      obtain ⟨rfl, -⟩ := List.cons.inj (List.cons.inj hrest).2
      rw [ht.1] at hc
      cases hc

/-! ### Backslashes at the end -/

/-- The backslashes at the end of `s`. -/
def backslashes (s : List UInt8) : ℕ := (s.reverse.takeWhile (· = backslash)).length

theorem backslashes_concat (s : List UInt8) (b : UInt8) :
    backslashes (s ++ [b]) = if b = backslash then backslashes s + 1 else 0 := by
  unfold backslashes
  rw [List.reverse_append, List.reverse_singleton, List.singleton_append]
  by_cases hb : b = backslash
  · rw [List.takeWhile_cons_of_pos (by simpa using hb), if_pos hb, List.length_cons]
  · rw [List.takeWhile_cons_of_neg (by simpa using hb), if_neg hb, List.length_nil]

/-- A text ends in an even number of backslashes. -/
theorem even_backslashes {ts : List Token} :
    (∀ t ∈ ts, t.Ok special) → backslashes (text ts) % 2 = 0 := by
  induction ts using List.reverseRecOn with
  | nil => exact fun _ => rfl
  | append_singleton ts t ih =>
    intro h
    have hts := ih fun u hu => h u (List.mem_append_left _ hu)
    have ht := h t (by simp)
    rw [text_append]
    cases t with
    | plain b =>
      show backslashes (text ts ++ [b]) % 2 = 0
      rw [backslashes_concat, if_neg ht]
    | char c =>
      have hsplit : text ts ++ text [.char c] = (text ts ++ [backslash]) ++ [c] := by
        simp [text, Token.text]
      rw [hsplit, backslashes_concat]
      by_cases hc : c = backslash
      · rw [if_pos hc, backslashes_concat, if_pos rfl]
        omega
      · rw [if_neg hc]
    | hex g l =>
      have hsplit : text ts ++ text [.hex g l] = (text ts ++ [backslash, g]) ++ [l] := by
        simp [text, Token.text]
      have hl : l ≠ backslash := by
        rintro rfl
        exact absurd ht.2 (by decide)
      rw [hsplit, backslashes_concat, if_neg hl]

end Ostrich.Escaped
