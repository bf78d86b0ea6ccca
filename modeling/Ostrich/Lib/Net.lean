import Mathlib.Data.Fin.VecNotation
import Mathlib.Data.Fintype.Basic
import Ostrich.Lib.Text

/-!
# IP addresses and their text

The parser and the printer of the standard library for IPv4 and IPv6 addresses.

The parser functions take the characters that are left and give the value read with what follows
it, or `none`, which reads nothing.  `readIpAddr` is the whole text of an address: IPv4 as four
decimal numbers without leading zeros, IPv6 as up to eight groups with one `::` and an optional
IPv4 tail.

The printer follows RFC 5952: `fmtIpv6` drops leading zeros and writes `::` for the longest run of
at least two zero groups (the first of equally long ones), and an IPv4-mapped address with its
IPv4 part in decimal.  An address is printed with all its digits exactly when each group has four
(`fmtIpv6_of_full`, `full_of_length_fmtIpv6`).
-/

namespace Ostrich.Net

open Text

/-! ### Addresses -/

-- the numbers of the octets and of the segments
instance neZero_four : @NeZero ℕ Zero.ofOfNat0 4 := ⟨by decide⟩

instance neZero_eight : @NeZero ℕ Zero.ofOfNat0 8 := ⟨by decide⟩

/-- An IPv4 address. -/
structure Ipv4Addr where
  octets : Fin 4 → UInt8
  deriving DecidableEq

/-- An IPv6 address. -/
structure Ipv6Addr where
  segments : Fin 8 → UInt16
  deriving DecidableEq

/-- An IP address. -/
inductive IpAddr where
  | v4 (a : Ipv4Addr)
  | v6 (a : Ipv6Addr)
  deriving DecidableEq

/-! ### Parsing -/

/-- The value of a digit. -/
def toDigit (radix : ℕ) (c : Char) : Option ℕ :=
  let n := c.toNat
  let d := if 48 ≤ n ∧ n ≤ 57 then some (n - 48)
    else if 97 ≤ n ∧ n ≤ 122 then some (n - 87)
    else if 65 ≤ n ∧ n ≤ 90 then some (n - 55)
    else none
  d.filter (· < radix)

/-- The loop of `readNumber`: more than `maxDigits` digits are refused. -/
def readDigits (radix maxDigits : ℕ) : List Char → ℕ → ℕ → Option (ℕ × ℕ × List Char)
  | [], result, count => some (result, count, [])
  | c :: rest, result, count =>
    match toDigit radix c with
    | some d =>
      if count + 1 > maxDigits then none
      else readDigits radix maxDigits rest (result * radix + d) (count + 1)
    | none => some (result, count, c :: rest)

/-- Read a number below `bound`. -/
def readNumber (radix maxDigits : ℕ) (allowZeroPrefix : Bool) (bound : ℕ) (s : List Char) :
    Option (ℕ × List Char) := do
  let hasLeadingZero := s.head? = some '0'
  let (result, digitCount, rest) ← readDigits radix maxDigits s 0 0
  if digitCount = 0 then none
  else if !allowZeroPrefix && hasLeadingZero && digitCount > 1 then none
  else if result < bound then some (result, rest) else none

/-- Read one given character. -/
def readGivenChar (target : Char) : List Char → Option (List Char)
  | [] => none
  | c :: rest => if c = target then some rest else none

/-- Read `inner`, after the separator except at index `0`. -/
def readSeparator {α : Type} (sep : Char) (index : ℕ) (inner : List Char → Option (α × List Char))
    (s : List Char) : Option (α × List Char) :=
  if index > 0 then (readGivenChar sep s).bind inner else inner s

/-- Read an IPv4 address. -/
def readIpv4 (s : List Char) : Option (Ipv4Addr × List Char) := do
  let (a, s) ← readSeparator '.' 0 (readNumber 10 3 false 256) s
  let (b, s) ← readSeparator '.' 1 (readNumber 10 3 false 256) s
  let (c, s) ← readSeparator '.' 2 (readNumber 10 3 false 256) s
  let (d, s) ← readSeparator '.' 3 (readNumber 10 3 false 256) s
  return (⟨![UInt8.ofNat a, UInt8.ofNat b, UInt8.ofNat c, UInt8.ofNat d]⟩, s)

/-- Two octets as a group. -/
def groupOfOctets (a b : UInt8) : UInt16 := UInt16.ofNat (a.toNat * 256 + b.toNat)

/-- Read colon-separated groups, `left` more at most after those of `groups`; an IPv4 address may
stand for the last two.  Gives the groups and whether it ended in an IPv4 address. -/
def readGroups : ℕ → List UInt16 → List Char → List UInt16 × Bool × List Char
  | 0, groups, s => (groups, false, s)
  | left + 1, groups, s =>
    let ipv4 := if left ≥ 1 then readSeparator ':' groups.length readIpv4 s else none
    match ipv4 with
    | some (a, s) =>
      (groups ++ [groupOfOctets (a.octets 0) (a.octets 1), groupOfOctets (a.octets 2) (a.octets 3)],
        true, s)
    | none =>
      match readSeparator ':' groups.length (readNumber 16 4 true 65536) s with
      | some (g, s) => readGroups left (groups ++ [UInt16.ofNat g]) s
      | none => (groups, false, s)

/-- The address with these groups in front, these at the end, and zeros between. -/
def ipv6OfGroups (head tail : List UInt16) : Ipv6Addr :=
  ⟨fun i => (head ++ List.replicate (8 - head.length - tail.length) 0 ++ tail).getD i 0⟩

/-- Read an IPv6 address. -/
def readIpv6 (s : List Char) : Option (Ipv6Addr × List Char) :=
  let (head, headIpv4, s) := readGroups 8 [] s
  if head.length = 8 then some (ipv6OfGroups head [], s)
  else if headIpv4 then none
  else do
    let s ← readGivenChar ':' s
    let s ← readGivenChar ':' s
    let (tail, _, s) := readGroups (8 - (head.length + 1)) [] s
    return (ipv6OfGroups head tail, s)

/-- Parse a whole text as an address. -/
def parseIpAddr (text : String) : Option IpAddr :=
  let result : Option (IpAddr × List Char) :=
    match readIpv4 text.toList with
    | some (a, s) => some (.v4 a, s)
    | none => (readIpv6 text.toList).map fun (a, s) => (.v6 a, s)
  match result with
  | some (ip, []) => some ip
  | _ => none

/-! ### Printing -/

/-- Dotted decimal. -/
def fmtIpv4 (a : Ipv4Addr) : String :=
  s!"{(a.octets 0).toNat}.{(a.octets 1).toNat}.{(a.octets 2).toNat}.{(a.octets 3).toNat}"

/-- A group in hexadecimal, without leading zeros. -/
def fmtGroup (g : UInt16) : List Char :=
  match (hexFixed 4 g.toNat).dropWhile (· = '0') with
  | [] => ['0']
  | digits => digits

/-- Groups separated by colons. -/
def fmtSubslice : List UInt16 → List Char
  | [] => []
  | [g] => fmtGroup g
  | g :: rest => fmtGroup g ++ ':' :: fmtSubslice rest

/-- A run of groups. -/
structure Span where
  start : ℕ
  len : ℕ

/-- The loop that finds the longest run of zero groups; `i` is the index of the next group. -/
def longestZeros : List UInt16 → ℕ → Span → Span → Span
  | [], _, longest, _ => longest
  | g :: rest, i, longest, current =>
    if g = 0 then
      let current : Span := if current.len = 0 then ⟨i, 1⟩ else ⟨current.start, current.len + 1⟩
      longestZeros rest (i + 1) (if current.len > longest.len then current else longest) current
    else longestZeros rest (i + 1) longest ⟨0, 0⟩

theorem mapped_le : 5 ≤ 8 := by decide

/-- The IPv4 address that an IPv4-mapped address (`::ffff:a.b.c.d`) stands for. -/
def toIpv4Mapped (a : Ipv6Addr) : Option Ipv4Addr :=
  if (∀ i : Fin 5, a.segments (i.castLE mapped_le) = 0) ∧ a.segments 5 = 0xffff then
    let hi := (a.segments 6).toNat
    let lo := (a.segments 7).toNat
    some ⟨![UInt8.ofNat (hi / 256), UInt8.ofNat hi, UInt8.ofNat (lo / 256), UInt8.ofNat lo]⟩
  else none

/-- The RFC 5952 text of an address. -/
def fmtIpv6 (a : Ipv6Addr) : String :=
  match toIpv4Mapped a with
  | some v4 => "::ffff:" ++ fmtIpv4 v4
  | none =>
    let segments := List.ofFn a.segments
    let zeroes := longestZeros segments 0 ⟨0, 0⟩ ⟨0, 0⟩
    if zeroes.len > 1 then
      String.ofList (fmtSubslice (segments.take zeroes.start)
        ++ ':' :: ':' :: fmtSubslice (segments.drop (zeroes.start + zeroes.len)))
    else String.ofList (fmtSubslice segments)

/-- The text of an address. -/
def fmtIpAddr : IpAddr → String
  | .v4 a => fmtIpv4 a
  | .v6 a => fmtIpv6 a

/-! ### Addresses with all digits -/

/-- Groups of four digits, separated by colons. -/
def fmtExpanded : List UInt16 → List Char
  | [] => []
  | [g] => hexFixed 4 g.toNat
  | g :: rest => hexFixed 4 g.toNat ++ ':' :: fmtExpanded rest

theorem length_fmtExpanded : ∀ groups : List UInt16,
    (fmtExpanded groups).length = 5 * groups.length - 1
  | [] => rfl
  | [g] => by simp [fmtExpanded]
  | g :: g' :: rest => by
    have hrest := length_fmtExpanded (g' :: rest)
    rw [fmtExpanded, List.length_append, length_hexFixed, List.length_cons, hrest]
    · simp only [List.length_cons]
      omega
    · simp

theorem hexFixed_four (n : ℕ) : hexFixed 4 n
    = hexDigit (n / 4096 % 16) :: hexFixed 3 n := by
  simp only [hexFixed, List.nil_append, List.cons_append, Nat.div_div_eq_div_mul]

theorem hexDigit_eq_zero_iff {d : ℕ} (hd : d < 16) : hexDigit d = '0' ↔ d = 0 := by
  have hall : ∀ d < 16, hexDigit d = '0' ↔ d = 0 := by decide
  exact hall d hd

/-- A group has four digits exactly from `0x1000` on. -/
theorem fmtGroup_of_le {g : UInt16} (h : 0x1000 ≤ g.toNat) : fmtGroup g = hexFixed 4 g.toNat := by
  have hlt : g.toNat < 65536 := g.toNat_lt
  have hne : hexDigit (g.toNat / 4096 % 16) ≠ '0' := by
    rw [Ne, hexDigit_eq_zero_iff (Nat.mod_lt _ (by decide))]
    omega
  have hdrop : (hexFixed 4 g.toNat).dropWhile (· = '0') = hexFixed 4 g.toNat := by
    rw [hexFixed_four, List.dropWhile_cons_of_neg (by simpa using hne)]
  unfold fmtGroup
  rw [hdrop, hexFixed_four]

theorem length_fmtGroup_le (g : UInt16) : (fmtGroup g).length ≤ 4 := by
  have hlen : ((hexFixed 4 g.toNat).dropWhile (· = '0')).length ≤ (hexFixed 4 g.toNat).length :=
    (List.dropWhile_sublist _).length_le
  rw [length_hexFixed] at hlen
  unfold fmtGroup
  split
  · decide
  · rename_i digits _
    exact hlen

theorem length_fmtGroup_lt {g : UInt16} (h : g.toNat < 0x1000) : (fmtGroup g).length < 4 := by
  have hzero : hexDigit (g.toNat / 4096 % 16) = '0' := by
    rw [hexDigit_eq_zero_iff (Nat.mod_lt _ (by decide))]
    omega
  have hlen : ((hexFixed 4 g.toNat).dropWhile (· = '0')).length ≤ (hexFixed 3 g.toNat).length := by
    rw [hexFixed_four, List.dropWhile_cons_of_pos (by simpa using hzero)]
    exact (List.dropWhile_sublist _).length_le
  rw [length_hexFixed] at hlen
  unfold fmtGroup
  split
  · decide
  · rename_i digits _
    exact Nat.lt_succ_of_le hlen

theorem length_fmtSubslice_le : ∀ groups : List UInt16,
    (fmtSubslice groups).length ≤ 5 * groups.length - 1
  | [] => Nat.le_refl 0
  | [g] => length_fmtGroup_le g
  | g :: g' :: rest => by
    have hg := length_fmtGroup_le g
    have hrest := length_fmtSubslice_le (g' :: rest)
    rw [fmtSubslice, List.length_append, List.length_cons]
    · rw [List.length_cons] at hrest ⊢
      rw [List.length_cons]
      omega
    · simp

/-- A group with fewer digits makes the text shorter. -/
theorem length_fmtSubslice_lt : ∀ {groups : List UInt16}, (∃ g ∈ groups, g.toNat < 0x1000) →
    (fmtSubslice groups).length < 5 * groups.length - 1
  | [], h => by simp at h
  | [g], h => length_fmtGroup_lt (by simpa using h)
  | g :: g' :: rest, h => by
    rw [fmtSubslice, List.length_append, List.length_cons]
    · have hg := length_fmtGroup_le g
      have hrest := length_fmtSubslice_le (g' :: rest)
      obtain ⟨x, hx, hlt⟩ := h
      rcases List.mem_cons.mp hx with rfl | hx
      · have := length_fmtGroup_lt hlt
        rw [List.length_cons] at hrest ⊢
        rw [List.length_cons]
        omega
      · have := length_fmtSubslice_lt ⟨x, hx, hlt⟩
        rw [List.length_cons] at this ⊢
        rw [List.length_cons]
        omega
    · simp

theorem fmtSubslice_of_full : ∀ {groups : List UInt16}, (∀ g ∈ groups, 0x1000 ≤ g.toNat) →
    fmtSubslice groups = fmtExpanded groups
  | [], _ => rfl
  | [g], h => fmtGroup_of_le (by simpa using h)
  | g :: g' :: rest, h => by
    rw [fmtSubslice, fmtExpanded, fmtGroup_of_le (h g (List.mem_cons_self ..)),
      fmtSubslice_of_full fun x hx => h x (List.mem_cons_of_mem _ hx)]
    · simp
    · simp

/-- Without zero groups there is no run of them. -/
theorem longestZeros_of_ne_zero : ∀ {groups : List UInt16} {i : ℕ} {longest current : Span},
    (∀ g ∈ groups, g ≠ 0) → longestZeros groups i longest current = longest
  | [], _, _, _, _ => rfl
  | g :: rest, i, longest, current, h => by
    rw [longestZeros, if_neg (h g (List.mem_cons_self ..)),
      longestZeros_of_ne_zero fun x hx => h x (List.mem_cons_of_mem _ hx)]

/-- A run starts at a group. -/
theorem start_longestZeros_le : ∀ {groups : List UInt16} {i n : ℕ} {longest current : Span},
    longest.start ≤ n → current.start ≤ n → i + groups.length ≤ n + 1 →
    (longestZeros groups i longest current).start ≤ n
  | [], _, _, _, _, hlongest, _, _ => hlongest
  | g :: rest, i, n, longest, current, hlongest, hcurrent, hi => by
    rw [List.length_cons] at hi
    rw [longestZeros]
    by_cases hg : g = 0
    · rw [if_pos hg]
      have hstart : (if current.len = 0 then (⟨i, 1⟩ : Span)
          else ⟨current.start, current.len + 1⟩).start ≤ n := by
        split
        · exact (by omega : i ≤ n)
        · exact hcurrent
      refine start_longestZeros_le ?_ hstart (by omega)
      generalize (if current.len = 0 then (⟨i, 1⟩ : Span)
        else ⟨current.start, current.len + 1⟩) = next at hstart ⊢
      split
      · exact hstart
      · exact hlongest
    · rw [if_neg hg]
      exact start_longestZeros_le hlongest (Nat.zero_le _) (by omega)

/-- An address whose groups have four digits is printed with all of them. -/
theorem fmtIpv6_of_full {a : Ipv6Addr} (h : ∀ i, 0x1000 ≤ (a.segments i).toNat) :
    fmtIpv6 a = String.ofList (fmtExpanded (List.ofFn a.segments)) := by
  have hall : ∀ g ∈ List.ofFn a.segments, 0x1000 ≤ g.toNat := by
    intro g hg
    obtain ⟨i, rfl⟩ := List.mem_ofFn.mp hg
    exact h i
  have hmapped : toIpv4Mapped a = none := by
    refine if_neg fun hzero => ?_
    have hfirst : a.segments 0 = 0 := hzero.1 0
    have hfull := h 0
    rw [hfirst] at hfull
    exact absurd hfull (by decide)
  have hzeros : longestZeros (List.ofFn a.segments) 0 ⟨0, 0⟩ ⟨0, 0⟩ = ⟨0, 0⟩ := by
    refine longestZeros_of_ne_zero fun g hg hzero => ?_
    have := hall g hg
    rw [hzero] at this
    exact absurd this (by decide)
  unfold fmtIpv6
  rw [hmapped]
  dsimp only
  rw [hzeros, if_neg (by decide), fmtSubslice_of_full hall]

/-- Only such an address is printed with 39 characters. -/
theorem full_of_length_fmtIpv6 {a : Ipv6Addr} (hmapped : toIpv4Mapped a = none)
    (hlen : (fmtIpv6 a).toList.length = 39) : ∀ i, 0x1000 ≤ (a.segments i).toNat := by
  unfold fmtIpv6 at hlen
  rw [hmapped] at hlen
  dsimp only at hlen
  set segments := List.ofFn a.segments with hsegments
  have hcount : segments.length = 8 := List.length_ofFn
  set zeroes := longestZeros segments 0 ⟨0, 0⟩ ⟨0, 0⟩ with hzeroes
  split_ifs at hlen with hrun
  · -- at least one group is left out
    have hstart : zeroes.start ≤ 7 :=
      start_longestZeros_le (Nat.zero_le _) (Nat.zero_le _) (by omega)
    have htake := length_fmtSubslice_le (segments.take zeroes.start)
    have hdrop := length_fmtSubslice_le (segments.drop (zeroes.start + zeroes.len))
    rw [String.toList_ofList, List.length_append, List.length_cons, List.length_cons] at hlen
    rw [List.length_take, hcount] at htake
    rw [List.length_drop, hcount] at hdrop
    omega
  · rw [String.toList_ofList] at hlen
    intro i
    by_contra hlt
    have hshort : (fmtSubslice segments).length < 5 * segments.length - 1 :=
      length_fmtSubslice_lt ⟨a.segments i, List.mem_ofFn.mpr ⟨i, rfl⟩, Nat.lt_of_not_le hlt⟩
    rw [hlen, hcount] at hshort
    exact absurd hshort (by decide)

end Ostrich.Net
