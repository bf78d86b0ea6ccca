import Mathlib.Data.Nat.Digits.Lemmas
import Mathlib.Tactic.Ring

/-!
# DER

The tag-length-value encoding with definite lengths below `2^32`: `lenBytes` is the shortest form
of a length and `tlv tag content` the whole element.  `readTlv_tlv` reads an element back from the
front of any bytes that start with it, so elements are a prefix code (`tlv_append_inj`).

`uint n` is the INTEGER of a natural number: its bytes without leading zeros, with one zero in
front if the first bit is set.
-/

namespace Ostrich.Der

/-! ### Big-endian numbers -/

/-- The number with these bytes, most significant first. -/
def ofBytes (bytes : List UInt8) : ℕ := bytes.foldl (fun n b => n * 256 + b.toNat) 0

theorem foldl_bytes : ∀ (bytes : List UInt8) (n : ℕ),
    bytes.foldl (fun n b => n * 256 + b.toNat) n = n * 256 ^ bytes.length + ofBytes bytes := by
  intro bytes
  induction bytes with
  | nil => intro n; simp [ofBytes]
  | cons b bytes ih =>
    intro n
    have hcons : ofBytes (b :: bytes) = (0 * 256 + b.toNat) * 256 ^ bytes.length + ofBytes bytes :=
      ih _
    rw [List.foldl_cons, ih, hcons, List.length_cons, Nat.pow_succ]
    ring

theorem ofBytes_cons (b : UInt8) (bytes : List UInt8) :
    ofBytes (b :: bytes) = b.toNat * 256 ^ bytes.length + ofBytes bytes := by
  rw [ofBytes, List.foldl_cons, foldl_bytes]
  simp

/-- Leading zeros do not count. -/
theorem ofBytes_dropWhile : ∀ bytes : List UInt8,
    ofBytes (bytes.dropWhile (· = 0)) = ofBytes bytes := by
  intro bytes
  induction bytes with
  | nil => rfl
  | cons b bytes ih =>
    by_cases h : b = 0
    · rw [List.dropWhile_cons_of_pos (by simpa using h), ih, ofBytes_cons, h]
      simp
    · rw [List.dropWhile_cons_of_neg (by simpa using h)]

theorem ofBytes_lt : ∀ bytes : List UInt8, ofBytes bytes < 256 ^ bytes.length := by
  intro bytes
  induction bytes with
  | nil => decide
  | cons b bytes ih =>
    have hb : b.toNat + 1 ≤ 256 := b.toNat_lt
    calc ofBytes (b :: bytes) < (b.toNat + 1) * 256 ^ bytes.length := by
          rw [ofBytes_cons]
          linarith
      _ ≤ 256 ^ (b :: bytes).length := by
          rw [List.length_cons, Nat.pow_succ, Nat.mul_comm _ 256]
          exact Nat.mul_le_mul_right _ hb

theorem ofBytes_inj_of_length : ∀ {a b : List UInt8}, a.length = b.length →
    ofBytes a = ofBytes b → a = b
  | [], [], _, _ => rfl
  | x :: a, y :: b, hlen, h => by
    have hlen' : a.length = b.length := Nat.succ.inj hlen
    have ha := ofBytes_lt a
    have hb := ofBytes_lt b
    rw [ofBytes_cons, ofBytes_cons, ← hlen'] at h
    rw [← hlen'] at hb
    have hpos : 0 < 256 ^ a.length := Nat.pow_pos (by decide)
    have hx : x.toNat = y.toNat := by
      have := congrArg (· / 256 ^ a.length) h
      simpa [Nat.mul_add_div hpos, Nat.div_eq_of_lt ha, Nat.div_eq_of_lt hb, Nat.mul_comm]
        using this
    rw [hx] at h
    rw [UInt8.toNat_inj.mp hx, ofBytes_inj_of_length hlen' (Nat.add_left_cancel h)]

theorem pow_le_ofBytes {b : UInt8} (hb : b ≠ 0) (bytes : List UInt8) :
    256 ^ bytes.length ≤ ofBytes (b :: bytes) := by
  have hpos : 0 < b.toNat := Nat.pos_of_ne_zero fun h => hb (UInt8.toNat_inj.mp h)
  rw [ofBytes_cons]
  exact (Nat.le_mul_of_pos_left _ hpos).trans (Nat.le_add_right _ _)

/-- Bytes without a leading zero have the least length of their number. -/
theorem length_le_of_ofBytes_eq {a b : List UInt8} (ha : a.head? ≠ some 0)
    (h : ofBytes a = ofBytes b) : a.length ≤ b.length := by
  cases a with
  | nil => exact Nat.zero_le _
  | cons x a =>
    have hx : x ≠ 0 := by simpa using ha
    have hlt : 256 ^ a.length < 256 ^ b.length :=
      calc 256 ^ a.length ≤ ofBytes (x :: a) := pow_le_ofBytes hx a
        _ = ofBytes b := h
        _ < 256 ^ b.length := ofBytes_lt b
    exact (Nat.pow_lt_pow_iff_right (by decide)).mp hlt

/-- Two byte strings are the same number exactly when they differ in leading zeros only. -/
theorem ofBytes_eq_iff {a b : List UInt8} :
    ofBytes a = ofBytes b ↔ a.dropWhile (· = 0) = b.dropWhile (· = 0) := by
  have hhead (l : List UInt8) : (l.dropWhile (· = 0)).head? ≠ some 0 := by
    intro h
    have := List.head?_dropWhile_not (fun x : UInt8 => decide (x = 0)) l
    rw [h] at this
    simp at this
  constructor
  · intro h
    rw [← ofBytes_dropWhile a, ← ofBytes_dropWhile b] at h
    exact ofBytes_inj_of_length ((length_le_of_ofBytes_eq (hhead a) h).antisymm
      (length_le_of_ofBytes_eq (hhead b) h.symm)) h
  · intro h
    rw [← ofBytes_dropWhile a, h, ofBytes_dropWhile]

/-- The shortest bytes of a number; none for `0`. -/
def minBytes (n : ℕ) : List UInt8 := (Nat.digits 256 n).reverse.map UInt8.ofNat

theorem ofBytes_minBytes (n : ℕ) : ofBytes (minBytes n) = n := by
  have hfold : ∀ (l : List ℕ), (∀ d ∈ l, d < 256) →
      ofBytes (l.reverse.map UInt8.ofNat) = Nat.ofDigits 256 l := by
    intro l
    induction l with
    | nil => intro _; rfl
    | cons d l ih =>
      intro h
      have hd : (UInt8.ofNat d).toNat = d := by
        rw [UInt8.toNat_ofNat']
        exact Nat.mod_eq_of_lt (h d (List.mem_cons_self ..))
      rw [List.reverse_cons, List.map_append, ofBytes, List.foldl_append, Nat.ofDigits_cons,
        ← ih fun d hd => h d (List.mem_cons_of_mem _ hd)]
      change ofBytes _ * 256 + (UInt8.ofNat d).toNat = _
      rw [hd]
      ring
  rw [minBytes, hfold _ fun d hd => Nat.digits_lt_base (by decide) hd, Nat.ofDigits_digits]

/-- The shortest bytes have no leading zero. -/
theorem minBytes_head (n : ℕ) : (minBytes n).head? ≠ some 0 := by
  unfold minBytes
  rw [List.head?_map, List.head?_reverse]
  intro h
  obtain ⟨d, hd, hzero⟩ := Option.map_eq_some_iff.mp h
  have hmem : d ∈ Nat.digits 256 n := List.mem_of_getLast? hd
  have hlt : d < 256 := Nat.digits_lt_base (by decide) hmem
  -- the last digit of a number is not zero
  have hne : Nat.digits 256 n ≠ [] := List.ne_nil_of_mem hmem
  have hlast : (Nat.digits 256 n).getLast hne = d := by
    rw [List.getLast?_eq_some_getLast hne] at hd
    exact Option.some.inj hd
  have hn : n ≠ 0 := by
    rintro rfl
    exact hne (Nat.digits_zero 256)
  have hpos := Nat.getLast_digit_ne_zero 256 hn
  rw [hlast] at hpos
  have hto := congrArg UInt8.toNat hzero
  rw [UInt8.toNat_ofNat', Nat.mod_eq_of_lt hlt] at hto
  exact hpos hto

/-- The shortest octets of a number are its octets without leading zeros. -/
theorem minBytes_ofBytes (bytes : List UInt8) :
    minBytes (ofBytes bytes) = bytes.dropWhile (· = 0) := by
  have heq : ofBytes (minBytes (ofBytes bytes)) = ofBytes bytes :=
    ofBytes_minBytes _
  rw [← ofBytes_eq_iff.mp heq]
  have hhead := minBytes_head (ofBytes bytes)
  cases hbytes : minBytes (ofBytes bytes) with
  | nil => rfl
  | cons b rest =>
    rw [hbytes] at hhead
    have hb : b ≠ 0 := fun h => hhead (by rw [h, List.head?_cons])
    rw [List.dropWhile_cons_of_neg (by simpa using hb)]

/-! ### Lengths -/

/-- The four bytes of a number below `2^32`. -/
def be4 (n : ℕ) : List UInt8 :=
  [UInt8.ofNat (n / 16777216), UInt8.ofNat (n / 65536 % 256), UInt8.ofNat (n / 256 % 256),
    UInt8.ofNat (n % 256)]

/-- The shortest form of a length. -/
def lenBytes (n : ℕ) : List UInt8 :=
  if n < 128 then [UInt8.ofNat n]
  else
    let sig := (be4 n).dropWhile (· = 0)
    UInt8.ofNat (128 + sig.length) :: sig

/-- Read a length from the front. -/
def readLen : List UInt8 → Option (ℕ × List UInt8)
  | [] => none
  | o :: rest =>
    if o.toNat < 128 then some (o.toNat, rest)
    else
      let k := o.toNat - 128
      if rest.length < k then none else some (ofBytes (rest.take k), rest.drop k)

theorem ofBytes_be4 {n : ℕ} (h : n < 2 ^ 32) : ofBytes (be4 n) = n := by
  simp only [be4, ofBytes_cons, UInt8.toNat_ofNat', List.length_cons, List.length_nil]
  simp only [ofBytes, List.foldl_nil]
  omega

/-- A length below `2^32` takes four octets at most. -/
theorem length_minBytes {n : ℕ} (h : n < 2 ^ 32) : (minBytes n).length ≤ 4 := by
  refine length_le_of_ofBytes_eq (minBytes_head n) (b := be4 n) ?_
  rw [ofBytes_minBytes, ofBytes_be4 h]

theorem readLen_lenBytes {n : ℕ} (h : n < 2 ^ 32) (rest : List UInt8) :
    readLen (lenBytes n ++ rest) = some (n, rest) := by
  unfold lenBytes
  split_ifs with hn
  · have hto : (UInt8.ofNat n).toNat = n := by
      rw [UInt8.toNat_ofNat']
      omega
    rw [List.singleton_append, readLen, hto, if_pos hn]
  · set sig := (be4 n).dropWhile (· = 0) with hsig
    have hlen : sig.length ≤ 4 := (List.dropWhile_sublist _).length_le
    have hto : (UInt8.ofNat (128 + sig.length)).toNat = 128 + sig.length := by
      rw [UInt8.toNat_ofNat']
      omega
    rw [List.cons_append, readLen, hto, if_neg (by omega)]
    dsimp only
    rw [show 128 + sig.length - 128 = sig.length by omega,
      if_neg (by rw [List.length_append]; omega), List.take_left, List.drop_left, hsig,
      ofBytes_dropWhile, ofBytes_be4 h]

/-! ### Elements -/

/-- An element: tag, length, content. -/
def tlv (tag : UInt8) (content : List UInt8) : List UInt8 :=
  tag :: (lenBytes content.length ++ content)

/-- Read an element from the front: tag, content, and what follows. -/
def readTlv : List UInt8 → Option (UInt8 × List UInt8 × List UInt8)
  | [] => none
  | tag :: rest => do
    let (len, rest) ← readLen rest
    if rest.length < len then none else some (tag, rest.take len, rest.drop len)

/-- **An element is read back from the front of what starts with it.** -/
theorem readTlv_tlv (tag : UInt8) {content : List UInt8} (h : content.length < 2 ^ 32)
    (rest : List UInt8) : readTlv (tlv tag content ++ rest) = some (tag, content, rest) := by
  rw [tlv, List.cons_append, readTlv, List.append_assoc, readLen_lenBytes h]
  simp

/-- **Elements are a prefix code.** -/
theorem tlv_append_inj {tag tag' : UInt8} {c c' rest rest' : List UInt8}
    (hc : c.length < 2 ^ 32) (hc' : c'.length < 2 ^ 32)
    (h : tlv tag c ++ rest = tlv tag' c' ++ rest') : tag = tag' ∧ c = c' ∧ rest = rest' := by
  have hread := readTlv_tlv tag hc rest
  rw [h, readTlv_tlv tag' hc' rest'] at hread
  obtain ⟨rfl, rfl, rfl⟩ : tag' = tag ∧ c' = c ∧ rest' = rest := by simpa using hread
  exact ⟨rfl, rfl, rfl⟩

theorem tlv_inj {tag tag' : UInt8} {c c' : List UInt8} (hc : c.length < 2 ^ 32)
    (hc' : c'.length < 2 ^ 32) (h : tlv tag c = tlv tag' c') : tag = tag' ∧ c = c' := by
  have happend : tlv tag c ++ [] = tlv tag' c' ++ [] := by rw [h]
  obtain ⟨htag, hcontent, -⟩ := tlv_append_inj hc hc' happend
  exact ⟨htag, hcontent⟩

theorem length_lenBytes_le (n : ℕ) : (lenBytes n).length ≤ 5 := by
  unfold lenBytes
  split_ifs
  · simp
  · have hlen : ((be4 n).dropWhile (· = 0)).length ≤ 4 := (List.dropWhile_sublist _).length_le
    rw [List.length_cons]
    omega

theorem length_tlv_le (tag : UInt8) (content : List UInt8) :
    (tlv tag content).length ≤ content.length + 6 := by
  have := length_lenBytes_le content.length
  rw [tlv, List.length_cons, List.length_append]
  omega

/-! ### Integers -/

/-- The content of the INTEGER of a natural number. -/
def uintContent (n : ℕ) : List UInt8 :=
  match minBytes n with
  | [] => [0]
  | b :: bytes => if b.toNat < 128 then b :: bytes else 0 :: b :: bytes

theorem ofBytes_uintContent (n : ℕ) : ofBytes (uintContent n) = n := by
  have h := ofBytes_minBytes n
  unfold uintContent
  cases hb : minBytes n with
  | nil => rw [hb] at h; rw [← h]; rfl
  | cons b bytes =>
    rw [hb] at h
    dsimp only
    split_ifs
    · exact h
    · rw [ofBytes_cons]
      simpa using h

end Ostrich.Der
