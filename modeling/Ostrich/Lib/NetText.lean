import Mathlib.Data.List.Infix
import Mathlib.Tactic.FinCases
import Ostrich.Lib.Net

/-!
# Reading the text of an address

`parseIpAddr_fmtIpAddr`: the parser reads what the printer writes, except that an IPv4-mapped
address is left out here (its text has an IPv4 tail).  `dotted_or_colon_of_parseIpAddr`: a text the
parser accepts ends in a dot and decimal digits, or has a colon.
-/

namespace Ostrich.Net

open Text

/-! ### Numbers -/

/-- No digit follows. -/
def NoDigit (radix : ℕ) (rest : List Char) : Prop := ∀ c ∈ rest.head?, toDigit radix c = none

theorem readDigits_append {radix maxDigits : ℕ} {rest : List Char} (hrest : NoDigit radix rest) :
    ∀ (s : List Char) (result count : ℕ) {v k : ℕ},
      readDigits radix maxDigits s result count = some (v, k, []) →
        readDigits radix maxDigits (s ++ rest) result count = some (v, k, rest) := by
  intro s
  induction s with
  | nil =>
    intro result count v k h
    rw [readDigits] at h
    obtain ⟨rfl, rfl⟩ : result = v ∧ count = k := by simpa using h
    cases rest with
    | nil => rfl
    | cons c rest =>
      have hc : toDigit radix c = none := hrest c rfl
      rw [List.nil_append, readDigits, hc]
  | cons c s ih =>
    intro result count v k h
    rw [readDigits] at h
    rw [List.cons_append, readDigits]
    cases hc : toDigit radix c with
    | none =>
      rw [hc] at h
      simp at h
    | some d =>
      rw [hc] at h
      dsimp only at h ⊢
      by_cases hmax : count + 1 > maxDigits
      · rw [if_pos hmax] at h
        cases h
      · rw [if_neg hmax] at h ⊢
        exact ih _ _ h

/-- A number is read up to the first character that is no digit. -/
theorem readNumber_append {radix maxDigits bound : ℕ} {allow : Bool} {s rest : List Char} {v : ℕ}
    (h : readNumber radix maxDigits allow bound s = some (v, [])) (hrest : NoDigit radix rest) :
    readNumber radix maxDigits allow bound (s ++ rest) = some (v, rest) := by
  unfold readNumber at h ⊢
  have hs : s ≠ [] := by
    rintro rfl
    simp [readDigits] at h
  have hhead : (s ++ rest).head? = s.head? := List.head?_append_of_ne_nil _ hs
  cases hdigits : readDigits radix maxDigits s 0 0 with
  | none =>
    rw [hdigits] at h
    cases h
  | some r =>
    obtain ⟨result, count, left⟩ := r
    rw [hdigits] at h
    simp only [Option.bind_eq_bind, Option.bind_some] at h
    have hleft : left = [] ∧ result = v := by
      split_ifs at h
      simp only [Option.some.injEq, Prod.mk.injEq] at h
      exact ⟨h.2, h.1⟩
    rw [hleft.1] at hdigits h
    rw [readDigits_append hrest s 0 0 hdigits, hhead]
    simp only [Option.bind_eq_bind, Option.bind_some]
    split_ifs at h ⊢
    rw [hleft.2]

theorem exists_digits_of_readDigits {radix maxDigits : ℕ} : ∀ (s : List Char) (result count : ℕ)
    {v k : ℕ} {rest : List Char}, readDigits radix maxDigits s result count = some (v, k, rest) →
      ∃ ds, s = ds ++ rest ∧ k = count + ds.length ∧ ∀ c ∈ ds, toDigit radix c ≠ none := by
  intro s
  induction s with
  | nil =>
    intro result count v k rest h
    rw [readDigits] at h
    simp only [Option.some.injEq, Prod.mk.injEq] at h
    exact ⟨[], by simp [← h.2.2], by simp [← h.2.1], by simp⟩
  | cons c s ih =>
    intro result count v k rest h
    rw [readDigits] at h
    cases hc : toDigit radix c with
    | none =>
      rw [hc] at h
      simp only [Option.some.injEq, Prod.mk.injEq] at h
      exact ⟨[], by simp [← h.2.2], by simp [← h.2.1], by simp⟩
    | some d =>
      rw [hc] at h
      dsimp only at h
      split_ifs at h
      obtain ⟨ds, hs, hk, hds⟩ := ih _ _ h
      refine ⟨c :: ds, by rw [hs, List.cons_append], ?_, ?_⟩
      · rw [hk, List.length_cons]
        omega
      · intro x hx
        rcases List.mem_cons.1 hx with rfl | hx
        · simp [hc]
        · exact hds x hx

/-- What is read as a number is one digit or more. -/
theorem exists_digits_of_readNumber {radix maxDigits bound : ℕ} {allow : Bool} {s rest : List Char}
    {v : ℕ} (h : readNumber radix maxDigits allow bound s = some (v, rest)) :
    ∃ ds, s = ds ++ rest ∧ ds ≠ [] ∧ ∀ c ∈ ds, toDigit radix c ≠ none := by
  unfold readNumber at h
  cases hdigits : readDigits radix maxDigits s 0 0 with
  | none =>
    rw [hdigits] at h
    cases h
  | some r =>
    obtain ⟨result, count, left⟩ := r
    rw [hdigits] at h
    simp only [Option.bind_eq_bind, Option.bind_some] at h
    split_ifs at h with hcount hzero hbound
    simp only [Option.some.injEq, Prod.mk.injEq] at h
    obtain ⟨ds, hs, hk, hds⟩ := exists_digits_of_readDigits s 0 0 hdigits
    refine ⟨ds, by rw [hs, h.2], ?_, hds⟩
    rintro rfl
    exact hcount hk

theorem readNumber_of_noDigit {radix maxDigits bound : ℕ} {allow : Bool} {s : List Char}
    (h : NoDigit radix s) : readNumber radix maxDigits allow bound s = none := by
  by_contra hsome
  obtain ⟨⟨v, rest⟩, hread⟩ := Option.ne_none_iff_exists'.1 hsome
  obtain ⟨ds, hs, hne, hds⟩ := exists_digits_of_readNumber hread
  cases ds with
  | nil => exact hne rfl
  | cons c ds =>
    have hc : c ∈ s.head? := by rw [hs]; rfl
    exact hds c (by simp) (h c hc)

/-! ### IPv4 -/

/-- The decimal digits of an octet are read as the octet. -/
theorem readNumber_octet (a : UInt8) :
    readNumber 10 3 false 256 (Nat.toDigits 10 a.toNat) = some (a.toNat, []) := by
  have hall : ∀ n < 256, readNumber 10 3 false 256 (Nat.toDigits 10 n) = some (n, []) := by
    decide +kernel
  exact hall a.toNat a.toNat_lt

theorem toList_fmtIpv4 (a : Ipv4Addr) : (fmtIpv4 a).toList =
    Nat.toDigits 10 (a.octets 0).toNat ++ '.' :: (Nat.toDigits 10 (a.octets 1).toNat ++
      '.' :: (Nat.toDigits 10 (a.octets 2).toNat ++
        '.' :: Nat.toDigits 10 (a.octets 3).toNat)) := by
  have hdigits : ∀ n : ℕ, (toString n).toList = Nat.toDigits 10 n := fun n => Nat.toList_repr
  have hdot : ".".toList = ['.'] := rfl
  unfold fmtIpv4
  simp only [String.toList_append, hdot, toString]
  simp

theorem noDigit_dot (radix : ℕ) (rest : List Char) : NoDigit radix ('.' :: rest) := by
  intro c hc
  obtain rfl : '.' = c := by simpa using hc
  rfl

theorem noDigit_colon (radix : ℕ) (rest : List Char) : NoDigit radix (':' :: rest) := by
  intro c hc
  obtain rfl : ':' = c := by simpa using hc
  rfl

theorem noDigit_nil (radix : ℕ) : NoDigit radix [] := by
  intro c hc
  cases hc

theorem readSeparator_zero {α : Type} (sep : Char) (inner : List Char → Option (α × List Char))
    (s : List Char) : readSeparator sep 0 inner s = inner s := rfl

theorem readSeparator_pos {α : Type} (sep : Char) {index : ℕ} (hindex : 0 < index)
    (inner : List Char → Option (α × List Char)) (s : List Char) :
    readSeparator sep index inner s = (readGivenChar sep s).bind inner := if_pos hindex

theorem readGivenChar_cons (c : Char) (rest : List Char) :
    readGivenChar c (c :: rest) = some rest := if_pos rfl

theorem readGivenChar_of_not_mem {c : Char} {s : List Char} (h : c ∉ s) :
    readGivenChar c s = none := by
  cases s with
  | nil => rfl
  | cons d s => exact if_neg fun heq => h (by rw [heq]; exact List.mem_cons_self ..)

theorem readGivenChar_eq_some {c : Char} {s rest : List Char}
    (h : readGivenChar c s = some rest) : s = c :: rest := by
  cases s with
  | nil => cases h
  | cons d s =>
    rw [readGivenChar] at h
    split_ifs at h with hd
    rw [hd, Option.some.inj h]

theorem readIpv4_fmtIpv4 (a : Ipv4Addr) : readIpv4 (fmtIpv4 a).toList = some (a, []) := by
  have hoctets : (⟨![UInt8.ofNat (a.octets 0).toNat, UInt8.ofNat (a.octets 1).toNat,
      UInt8.ofNat (a.octets 2).toNat, UInt8.ofNat (a.octets 3).toNat]⟩ : Ipv4Addr) = a := by
    congr 1
    funext i
    fin_cases i <;> simp
  have hlast := readNumber_append (readNumber_octet (a.octets 3)) (noDigit_nil 10)
  rw [List.append_nil] at hlast
  rw [toList_fmtIpv4]
  unfold readIpv4
  simp only [readSeparator_zero, readSeparator_pos '.' (Nat.zero_lt_succ _), Option.bind_eq_bind,
    readNumber_append (readNumber_octet (a.octets 0)) (noDigit_dot 10 _),
    readNumber_append (readNumber_octet (a.octets 1)) (noDigit_dot 10 _),
    readNumber_append (readNumber_octet (a.octets 2)) (noDigit_dot 10 _), hlast, Option.bind_some,
    readGivenChar_cons, Option.pure_def, hoctets]

/-- An IPv4 address ends in a dot and a number. -/
theorem exists_digits_of_readIpv4 {s rest : List Char} {a : Ipv4Addr}
    (h : readIpv4 s = some (a, rest)) : ∃ front ds, s = front ++ '.' :: (ds ++ rest) ∧ ds ≠ [] ∧
      ∀ c ∈ ds, toDigit 10 c ≠ none := by
  unfold readIpv4 at h
  simp only [readSeparator_zero, readSeparator_pos '.' (Nat.zero_lt_succ _), Option.bind_eq_bind,
    Option.bind_eq_some_iff, Option.pure_def, Option.some.injEq, Prod.mk.injEq] at h
  obtain ⟨⟨n₀, s₀⟩, h₀, ⟨n₁, s₁⟩, ⟨t₁, hdot₁, h₁⟩, ⟨n₂, s₂⟩, ⟨t₂, hdot₂, h₂⟩, ⟨n₃, s₃⟩,
    ⟨t₃, hdot₃, h₃⟩, -, hrest⟩ := h
  obtain ⟨d₀, hs₀, -, -⟩ := exists_digits_of_readNumber h₀
  obtain ⟨d₁, hs₁, -, -⟩ := exists_digits_of_readNumber h₁
  obtain ⟨d₂, hs₂, -, -⟩ := exists_digits_of_readNumber h₂
  obtain ⟨d₃, hs₃, hne, hd₃⟩ := exists_digits_of_readNumber h₃
  have ht₁ : s₀ = '.' :: t₁ := readGivenChar_eq_some hdot₁
  have ht₂ : s₁ = '.' :: t₂ := readGivenChar_eq_some hdot₂
  have ht₃ : s₂ = '.' :: t₃ := readGivenChar_eq_some hdot₃
  have hs : s₃ = rest := hrest
  refine ⟨d₀ ++ '.' :: (d₁ ++ '.' :: d₂), d₃, ?_, hne, hd₃⟩
  rw [hs₀, ht₁, hs₁, ht₂, hs₂, ht₃, hs₃, hs]
  simp

theorem readIpv4_of_not_mem {s : List Char} (h : '.' ∉ s) : readIpv4 s = none := by
  by_contra hsome
  obtain ⟨⟨a, rest⟩, hread⟩ := Option.ne_none_iff_exists'.1 hsome
  obtain ⟨front, ds, hs, -, -⟩ := exists_digits_of_readIpv4 hread
  exact h (by rw [hs]; simp)

/-! ### Groups -/

/-- The four hexadecimal digits of a group. -/
def nibbles (n : ℕ) : List ℕ := [n / 4096 % 16, n / 256 % 16, n / 16 % 16, n % 16]

/-- The number of these hexadecimal digits. -/
def ofNibbles (ds : List ℕ) : ℕ := ds.foldl (fun result d => result * 16 + d) 0

theorem hexFixed_eq_nibbles (n : ℕ) : hexFixed 4 n = (nibbles n).map hexDigit := by
  simp only [hexFixed, nibbles, List.nil_append, List.cons_append, Nat.div_div_eq_div_mul,
    List.map_cons, List.map_nil]

theorem toDigit_hexDigit {d : ℕ} (hd : d < 16) : toDigit 16 (hexDigit d) = some d := by
  have hall : ∀ d < 16, toDigit 16 (hexDigit d) = some d := by decide
  exact hall d hd

theorem readDigits_hex {maxDigits : ℕ} : ∀ (ds : List ℕ) (result count : ℕ),
    (∀ d ∈ ds, d < 16) → count + ds.length ≤ maxDigits →
      readDigits 16 maxDigits (ds.map hexDigit) result count =
        some (ds.foldl (fun result d => result * 16 + d) result, count + ds.length, []) := by
  intro ds
  induction ds with
  | nil => intro result count _ _; rfl
  | cons d ds ih =>
    intro result count hds hmax
    rw [List.length_cons] at hmax
    rw [List.map_cons, readDigits, toDigit_hexDigit (hds d (by simp))]
    dsimp only
    rw [if_neg (by omega), ih _ _ (fun x hx => hds x (List.mem_cons_of_mem _ hx)) (by omega),
      List.foldl_cons, List.length_cons]
    congr 3
    omega

theorem ofNibbles_dropWhile (ds : List ℕ) : ofNibbles (ds.dropWhile (· = 0)) = ofNibbles ds := by
  unfold ofNibbles
  induction ds with
  | nil => rfl
  | cons d ds ih =>
    by_cases hd : d = 0
    · rw [List.dropWhile_cons_of_pos (by simpa using hd), ih, List.foldl_cons, hd]
    · rw [List.dropWhile_cons_of_neg (by simpa using hd)]

/-- Leading zeros do not count. -/
theorem dropWhile_hexDigit : ∀ {ds : List ℕ}, (∀ d ∈ ds, d < 16) →
    (ds.map hexDigit).dropWhile (· = '0') = (ds.dropWhile (· = 0)).map hexDigit
  | [], _ => rfl
  | d :: ds, h => by
    have hd := hexDigit_eq_zero_iff (h d (by simp))
    have hrest := dropWhile_hexDigit fun x hx => h x (List.mem_cons_of_mem d hx)
    by_cases hzero : d = 0
    · rw [List.map_cons, List.dropWhile_cons_of_pos (by simpa using hd.2 hzero), hrest,
        List.dropWhile_cons_of_pos (by simpa using hzero)]
    · rw [List.map_cons, List.dropWhile_cons_of_neg (by simpa using fun heq => hzero (hd.1 heq)),
        List.dropWhile_cons_of_neg (by simpa using hzero), List.map_cons]

/-- A group is printed as one to four hexadecimal digits of its value. -/
theorem exists_nibbles_fmtGroup (g : UInt16) : ∃ ds : List ℕ, fmtGroup g = ds.map hexDigit ∧
    ds ≠ [] ∧ ds.length ≤ 4 ∧ (∀ d ∈ ds, d < 16) ∧ ofNibbles ds = g.toNat := by
  have hlt : g.toNat < 65536 := g.toNat_lt
  have hall : ∀ d ∈ nibbles g.toNat, d < 16 := by
    intro d hd
    simp only [nibbles, List.mem_cons, List.not_mem_nil, or_false] at hd
    omega
  have hvalue : ofNibbles (nibbles g.toNat) = g.toNat := by
    simp only [ofNibbles, nibbles, List.foldl_cons, List.foldl_nil]
    omega
  have hdrop := dropWhile_hexDigit hall
  unfold fmtGroup
  rw [hexFixed_eq_nibbles, hdrop]
  cases hds : (nibbles g.toNat).dropWhile (· = 0) with
  | nil =>
    have hzero : ofNibbles [] = g.toNat := by rw [← hds, ofNibbles_dropWhile, hvalue]
    exact ⟨[0], rfl, by simp, by simp, by simp, hzero⟩
  | cons d ds =>
    have hsub : (d :: ds).Sublist (nibbles g.toNat) := hds ▸ List.dropWhile_sublist _
    refine ⟨d :: ds, rfl, by simp, hsub.length_le, fun x hx => hall x (hsub.subset hx), ?_⟩
    rw [← hds, ofNibbles_dropWhile, hvalue]

theorem readNumber_fmtGroup (g : UInt16) {rest : List Char} (hrest : NoDigit 16 rest) :
    readNumber 16 4 true 65536 (fmtGroup g ++ rest) = some (g.toNat, rest) := by
  obtain ⟨ds, hfmt, hne, hlength, hds, hvalue⟩ := exists_nibbles_fmtGroup g
  have hlt : g.toNat < 65536 := g.toNat_lt
  have hpos : 0 < ds.length := List.length_pos_iff.2 hne
  refine readNumber_append ?_ hrest
  unfold readNumber
  rw [hfmt, readDigits_hex ds 0 0 hds (by omega)]
  have hfold : ds.foldl (fun result d => result * 16 + d) 0 = g.toNat := hvalue
  simp only [Option.bind_eq_bind, Option.bind_some, hfold, Nat.zero_add]
  rw [if_neg (by omega), if_neg (by simp), if_pos hlt]

theorem not_mem_fmtGroup {c : Char} (hc : ∀ d < 16, hexDigit d ≠ c) (g : UInt16) :
    c ∉ fmtGroup g := by
  obtain ⟨ds, hfmt, -, -, hds, -⟩ := exists_nibbles_fmtGroup g
  rw [hfmt]
  intro hmem
  obtain ⟨d, hd, heq⟩ := List.mem_map.1 hmem
  exact hc d (hds d hd) heq

/-! ### IPv6 -/

/-- Groups, each after a colon. -/
def tailText (groups : List UInt16) : List Char := groups.flatMap fun g => ':' :: fmtGroup g

theorem fmtSubslice_cons (g : UInt16) : ∀ rest : List UInt16,
    fmtSubslice (g :: rest) = fmtGroup g ++ tailText rest
  | [] => by simp [fmtSubslice, tailText]
  | g' :: rest => by
    rw [fmtSubslice, fmtSubslice_cons g' rest, tailText, tailText, List.flatMap_cons,
      List.cons_append]
    simp

/-- What may follow the groups: nothing, or `::`. -/
def Ends (rest : List Char) : Prop :=
  '.' ∉ rest ∧ (rest = [] ∨ ∃ after, rest = ':' :: ':' :: after)

theorem not_mem_tailText (groups : List UInt16) : '.' ∉ tailText groups := by
  intro hmem
  obtain ⟨g, -, hg⟩ := List.mem_flatMap.1 hmem
  rcases List.mem_cons.1 hg with hg | hg
  · exact absurd hg (by decide)
  · exact not_mem_fmtGroup (by decide) g hg

theorem not_mem_fmtSubslice (groups : List UInt16) : '.' ∉ fmtSubslice groups := by
  cases groups with
  | nil => simp [fmtSubslice]
  | cons g rest =>
    rw [fmtSubslice_cons]
    intro hmem
    rcases List.mem_append.1 hmem with hg | hg
    · exact not_mem_fmtGroup (by decide) g hg
    · exact not_mem_tailText rest hg

theorem Ends.noDigit {rest : List Char} (h : Ends rest) : NoDigit 16 rest := by
  rcases h.2 with rfl | ⟨after, rfl⟩
  · exact noDigit_nil 16
  · exact noDigit_colon 16 _

theorem noDigit_tailText (groups : List UInt16) {rest : List Char} (h : Ends rest) :
    NoDigit 16 (tailText groups ++ rest) := by
  cases groups with
  | nil => exact h.noDigit
  | cons g groups => exact noDigit_colon 16 _

/-- No IPv4 address is read from a text without dots. -/
theorem readSeparator_readIpv4 {s : List Char} (h : '.' ∉ s) (index : ℕ) :
    readSeparator ':' index readIpv4 s = none := by
  cases index with
  | zero => exact readIpv4_of_not_mem h
  | succ index =>
    rw [readSeparator_pos ':' (Nat.succ_pos index)]
    cases hcolon : readGivenChar ':' s with
    | none => rfl
    | some rest =>
      rw [readGivenChar_eq_some hcolon] at h
      exact readIpv4_of_not_mem fun hmem => h (List.mem_cons_of_mem _ hmem)

/-- The groups that follow others are read one by one. -/
theorem readGroups_tailText {rest : List Char} (hrest : Ends rest) :
    ∀ (groups : List UInt16) (left : ℕ) (read : List UInt16), read ≠ [] → groups.length ≤ left →
      readGroups left read (tailText groups ++ rest) = (read ++ groups, false, rest) := by
  intro groups
  induction groups with
  | nil =>
    intro left read hread _
    have hpos : 0 < read.length := List.length_pos_iff.2 hread
    rw [List.append_nil]
    cases left with
    | zero => rfl
    | succ left =>
      have hstop : readSeparator ':' read.length (readNumber 16 4 true 65536) rest = none := by
        rw [readSeparator_pos ':' hpos]
        rcases hrest.2 with rfl | ⟨after, rfl⟩
        · rfl
        · rw [readGivenChar_cons]
          exact readNumber_of_noDigit (noDigit_colon 16 after)
      show readGroups (left + 1) read rest = _
      unfold readGroups
      simp only [readSeparator_readIpv4 hrest.1, ite_self, hstop]
  | cons g groups ih =>
    intro left read hread hleft
    rw [List.length_cons] at hleft
    obtain ⟨left, rfl⟩ : ∃ n, left = n + 1 := ⟨left - 1, by omega⟩
    have hpos : 0 < read.length := List.length_pos_iff.2 hread
    have hdot : '.' ∉ tailText (g :: groups) ++ rest := by
      intro hmem
      rcases List.mem_append.1 hmem with hmem | hmem
      · exact not_mem_tailText _ hmem
      · exact hrest.1 hmem
    have hgroup : readSeparator ':' read.length (readNumber 16 4 true 65536)
        (tailText (g :: groups) ++ rest) = some (g.toNat, tailText groups ++ rest) := by
      have htext : tailText (g :: groups) ++ rest
          = ':' :: (fmtGroup g ++ (tailText groups ++ rest)) := by
        simp [tailText]
      rw [readSeparator_pos ':' hpos, htext, readGivenChar_cons]
      exact readNumber_fmtGroup g (noDigit_tailText groups hrest)
    unfold readGroups
    simp only [readSeparator_readIpv4 hdot, ite_self, hgroup]
    rw [ih left (read ++ [UInt16.ofNat g.toNat]) (by simp) (by omega)]
    simp

/-- The groups are read as they are printed. -/
theorem readGroups_fmtSubslice {rest : List Char} (hrest : Ends rest) (groups : List UInt16)
    {left : ℕ} (hleft : groups.length ≤ left) :
    readGroups left [] (fmtSubslice groups ++ rest) = (groups, false, rest) := by
  cases groups with
  | nil =>
    cases left with
    | zero => rfl
    | succ left =>
      show readGroups (left + 1) [] rest = _
      have hstop : readSeparator ':' ([] : List UInt16).length (readNumber 16 4 true 65536) rest
          = none := readNumber_of_noDigit hrest.noDigit
      unfold readGroups
      simp only [readSeparator_readIpv4 hrest.1, ite_self, hstop]
  | cons g groups =>
    rw [List.length_cons] at hleft
    obtain ⟨left, rfl⟩ : ∃ n, left = n + 1 := ⟨left - 1, by omega⟩
    have hdot : '.' ∉ fmtSubslice (g :: groups) ++ rest := by
      intro hmem
      rcases List.mem_append.1 hmem with hmem | hmem
      · exact not_mem_fmtSubslice _ hmem
      · exact hrest.1 hmem
    have hgroup : readSeparator ':' ([] : List UInt16).length (readNumber 16 4 true 65536)
        (fmtSubslice (g :: groups) ++ rest) = some (g.toNat, tailText groups ++ rest) := by
      rw [fmtSubslice_cons, List.append_assoc]
      exact readNumber_fmtGroup g (noDigit_tailText groups hrest)
    unfold readGroups
    simp only [readSeparator_readIpv4 hdot, ite_self, hgroup]
    rw [readGroups_tailText hrest groups left _ (by simp) (by omega)]
    simp

/-! ### Runs of zeros -/

/-- The span is a run of zero groups. -/
def IsRun (all : List UInt16) (span : Span) : Prop :=
  span.start + span.len ≤ all.length ∧
    ∀ j, span.start ≤ j → j < span.start + span.len → all[j]? = some 0

theorem isRun_longestZeros {all : List UInt16} : ∀ (groups : List UInt16) (i : ℕ)
    (longest current : Span), all.drop i = groups → i ≤ all.length → IsRun all longest →
      IsRun all current → (current.len ≠ 0 → current.start + current.len = i) →
        IsRun all (longestZeros groups i longest current) := by
  intro groups
  induction groups with
  | nil => exact fun i longest current _ _ hlongest _ _ => hlongest
  | cons g rest ih =>
    intro i longest current hdrop hi hlongest hcurrent hend
    have hg : all[i]? = some g := by
      rw [← Nat.add_zero i, ← List.getElem?_drop, hdrop]
      rfl
    have hlt : i < all.length := (List.getElem?_eq_some_iff.1 hg).1
    have hdrop' : all.drop (i + 1) = rest := by
      rw [← List.drop_drop, hdrop]
      rfl
    rw [longestZeros]
    by_cases hzero : g = 0
    · rw [if_pos hzero]
      have hnext : IsRun all (if current.len = 0 then ⟨i, 1⟩
          else ⟨current.start, current.len + 1⟩) ∧
          (if current.len = 0 then (⟨i, 1⟩ : Span)
            else ⟨current.start, current.len + 1⟩).start +
          (if current.len = 0 then (⟨i, 1⟩ : Span)
            else ⟨current.start, current.len + 1⟩).len = i + 1 := by
        by_cases hlen : current.len = 0
        · rw [if_pos hlen]
          refine ⟨⟨hlt, ?_⟩, rfl⟩
          intro j hj hj'
          obtain rfl : j = i := by
            have : j < i + 1 := hj'
            have : i ≤ j := hj
            omega
          rw [hg, hzero]
        · rw [if_neg hlen]
          have hstart := hend hlen
          refine ⟨⟨?_, ?_⟩, ?_⟩
          · show current.start + (current.len + 1) ≤ all.length
            omega
          · intro j hj hj'
            have hj'' : j < current.start + (current.len + 1) := hj'
            by_cases hji : j = i
            · rw [hji, hg, hzero]
            · exact hcurrent.2 j hj (by omega)
          · show current.start + (current.len + 1) = i + 1
            omega
      generalize (if current.len = 0 then (⟨i, 1⟩ : Span)
        else ⟨current.start, current.len + 1⟩) = next at hnext ⊢
      refine ih (i + 1) _ _ hdrop' hlt ?_ hnext.1 fun _ => hnext.2
      split
      · exact hnext.1
      · exact hlongest
    · rw [if_neg hzero]
      exact ih (i + 1) _ _ hdrop' hlt hlongest ⟨Nat.zero_le _, fun j _ hj => by simp at hj⟩
        fun h => absurd rfl h

/-- A list is what comes before a run, the zeros of the run, and what comes after it. -/
theorem eq_of_isRun {all : List UInt16} {span : Span} (h : IsRun all span) :
    all = all.take span.start ++ List.replicate span.len 0 ++
      all.drop (span.start + span.len) := by
  have hlength := h.1
  apply List.ext_getElem?
  intro j
  have htake : (all.take span.start).length = span.start := by
    rw [List.length_take]
    omega
  rcases Nat.lt_or_ge j span.start with hj | hj
  · rw [List.append_assoc, List.getElem?_append_left (by omega), List.getElem?_take_of_lt hj]
  · rcases Nat.lt_or_ge j (span.start + span.len) with hj' | hj'
    · rw [List.append_assoc, List.getElem?_append_right (by omega), htake,
        List.getElem?_append_left (by rw [List.length_replicate]; omega),
        List.getElem?_replicate_of_lt (by omega), h.2 j hj hj']
    · rw [List.getElem?_append_right
        (by rw [List.length_append, htake, List.length_replicate]; omega),
        List.length_append, htake, List.length_replicate, List.getElem?_drop]
      congr 1
      omega

/-! ### Whole addresses -/

theorem ipv6OfGroups_eq {a : Ipv6Addr} {head tail : List UInt16}
    (h : List.ofFn a.segments =
      head ++ List.replicate (8 - head.length - tail.length) 0 ++ tail) :
    ipv6OfGroups head tail = a := by
  unfold ipv6OfGroups
  rw [← h]
  congr 1
  funext i
  rw [List.getD_eq_getElem?_getD, List.getElem?_ofFn]
  simp

/-- The printed text of an address that is not IPv4-mapped is read as the address. -/
theorem readIpv6_fmtIpv6 {a : Ipv6Addr} (hmapped : toIpv4Mapped a = none) :
    '.' ∉ (fmtIpv6 a).toList ∧ readIpv6 (fmtIpv6 a).toList = some (a, []) := by
  have hnil : Ends [] := ⟨by simp, Or.inl rfl⟩
  set segments := List.ofFn a.segments with hsegments
  have hcount : segments.length = 8 := List.length_ofFn
  set zeroes := longestZeros segments 0 ⟨0, 0⟩ ⟨0, 0⟩ with hzeroes
  have hempty : IsRun segments ⟨0, 0⟩ := ⟨Nat.zero_le _, fun j _ hj => by simp at hj⟩
  have hrun : IsRun segments zeroes :=
    isRun_longestZeros segments 0 _ _ rfl (Nat.zero_le _) hempty hempty fun h => absurd rfl h
  have hend := hrun.1
  rw [hcount] at hend
  unfold fmtIpv6
  rw [hmapped]
  dsimp only
  rw [← hsegments, ← hzeroes]
  by_cases hlong : zeroes.len > 1
  · rw [if_pos hlong, String.toList_ofList]
    set head := segments.take zeroes.start with hhead
    set tail := segments.drop (zeroes.start + zeroes.len) with htail
    have hheadLength : head.length = zeroes.start := by
      rw [hhead, List.length_take]
      omega
    have htailLength : tail.length = 8 - (zeroes.start + zeroes.len) := by
      rw [htail, List.length_drop, hcount]
    have hdot : '.' ∉ ':' :: ':' :: fmtSubslice tail := by
      simp [not_mem_fmtSubslice tail]
    refine ⟨?_, ?_⟩
    · intro hmem
      rcases List.mem_append.1 hmem with hmem | hmem
      · exact not_mem_fmtSubslice head hmem
      · exact hdot hmem
    · have hread := @readGroups_fmtSubslice (':' :: ':' :: fmtSubslice tail)
        ⟨hdot, Or.inr ⟨_, rfl⟩⟩ head 8 (by omega)
      have hrest := @readGroups_fmtSubslice _ hnil tail (8 - (head.length + 1)) (by omega)
      rw [List.append_nil] at hrest
      have haddr : ipv6OfGroups head tail = a := by
        apply ipv6OfGroups_eq
        have hlen : 8 - head.length - tail.length = zeroes.len := by omega
        rw [hlen, ← hsegments, hhead, htail]
        exact eq_of_isRun hrun
      unfold readIpv6
      rw [hread]
      dsimp only
      rw [if_neg (by omega), if_neg (by simp)]
      simp only [Option.bind_eq_bind, readGivenChar_cons, Option.bind_some, hrest, haddr,
        Option.pure_def]
  · rw [if_neg hlong, String.toList_ofList]
    refine ⟨not_mem_fmtSubslice segments, ?_⟩
    have hread := @readGroups_fmtSubslice _ hnil segments 8 (by omega)
    rw [List.append_nil] at hread
    have haddr : ipv6OfGroups segments [] = a := by
      apply ipv6OfGroups_eq
      have hlen : 8 - segments.length - ([] : List UInt16).length = 0 := by omega
      rw [hlen, List.replicate_zero, List.append_nil, List.append_nil]
    unfold readIpv6
    rw [hread]
    dsimp only
    rw [if_pos hcount, haddr]

/-- **The parser reads what the printer writes**, if it is no IPv4-mapped address. -/
theorem parseIpAddr_fmtIpAddr (ip : IpAddr) (hmapped : ∀ v6, ip = .v6 v6 → toIpv4Mapped v6 = none) :
    parseIpAddr (fmtIpAddr ip) = some ip := by
  unfold parseIpAddr fmtIpAddr
  cases ip with
  | v4 a =>
    dsimp only
    rw [readIpv4_fmtIpv4]
  | v6 a =>
    obtain ⟨hdot, hread⟩ := readIpv6_fmtIpv6 (hmapped a rfl)
    dsimp only
    rw [readIpv4_of_not_mem hdot, hread]
    rfl

/-- Without a colon, at most an IPv4 address or one group is read. -/
theorem readGroups_of_not_mem {s : List Char} (h : ':' ∉ s) (left : ℕ) :
    (readGroups left [] s).1.length ≤ 2 ∧ ':' ∉ (readGroups left [] s).2.2 := by
  cases left with
  | zero => exact ⟨by simp [readGroups], h⟩
  | succ left =>
    have hstay : ∀ (left : ℕ) (g : UInt16) (rest : List Char), ':' ∉ rest →
        readGroups left [g] rest = ([g], false, rest) := by
      intro left g rest hrest
      cases left with
      | zero => rfl
      | succ left =>
        unfold readGroups
        have hstop : ∀ {α : Type} (inner : List Char → Option (α × List Char)),
            readSeparator ':' [g].length inner rest = none := by
          intro α inner
          rw [readSeparator_pos ':' (by simp), readGivenChar_of_not_mem hrest]
          rfl
        simp only [hstop, ite_self]
    unfold readGroups
    dsimp only
    cases hipv4 : (if left ≥ 1 then readSeparator ':' ([] : List UInt16).length readIpv4 s
        else none) with
    | some r =>
      have hread : readIpv4 s = some (r.1, r.2) := by
        split_ifs at hipv4
        exact hipv4
      obtain ⟨front, ds, hs, -, -⟩ := exists_digits_of_readIpv4 hread
      refine ⟨by simp, fun hmem => h ?_⟩
      rw [hs]
      have hmem' : ':' ∈ r.2 := hmem
      simp [hmem']
    | none =>
      cases hgroup : readSeparator ':' ([] : List UInt16).length (readNumber 16 4 true 65536) s with
      | some r =>
        obtain ⟨ds, hs, -, -⟩ := exists_digits_of_readNumber
          (show readNumber 16 4 true 65536 s = some (r.1, r.2) from hgroup)
        have hrest : ':' ∉ r.2 := fun hmem => h (by rw [hs]; simp [hmem])
        dsimp only
        rw [List.nil_append, hstay left _ r.2 hrest]
        exact ⟨by simp, hrest⟩
      | none => exact ⟨by simp, h⟩

theorem mem_colon_of_readIpv6 {s rest : List Char} {a : Ipv6Addr}
    (h : readIpv6 s = some (a, rest)) : ':' ∈ s := by
  by_contra hcolon
  obtain ⟨hlength, hrest⟩ := readGroups_of_not_mem hcolon 8
  unfold readIpv6 at h
  dsimp only at h
  rw [if_neg (by omega), readGivenChar_of_not_mem hrest] at h
  split_ifs at h
  cases h

/-- **A text that is read as an address ends in a dot and decimal digits, or has a colon.** -/
theorem dotted_or_colon_of_parseIpAddr {text : String} {ip : IpAddr}
    (h : parseIpAddr text = some ip) :
    (∃ front ds, text.toList = front ++ '.' :: ds ∧ ds ≠ [] ∧ ∀ c ∈ ds, toDigit 10 c ≠ none) ∨
      ':' ∈ text.toList := by
  unfold parseIpAddr at h
  cases hv4 : readIpv4 text.toList with
  | some r =>
    obtain ⟨a, rest⟩ := r
    rw [hv4] at h
    obtain ⟨front, ds, htext, hne, hds⟩ := exists_digits_of_readIpv4 hv4
    cases rest with
    | nil =>
      rw [List.append_nil] at htext
      exact Or.inl ⟨front, ds, htext, hne, hds⟩
    | cons c rest => simp at h
  | none =>
    cases hv6 : readIpv6 text.toList with
    | none =>
      rw [hv4, hv6] at h
      simp at h
    | some r => exact Or.inr (mem_colon_of_readIpv6 hv6)

end Ostrich.Net
