import Ostrich.Lib.DerWalk
import Ostrich.Ocsp.Equiv.DerUtil

/-!
# Which elements the OCSP reader accepts

`readTlv` takes a length in any form of up to four octets, although it is meant to refuse over-long
ones.

* `readTlv_eq_some_iff`: what is read is an element, with length octets of any form;
* `readTlv_inverse_iff`: the writer is undone by the reader, and the reader by the writer exactly on
  the inputs that do not start with an element whose length is written too long;
* `readTlv_overlong`: the one byte `AA` behind the length `81 01`.
-/

namespace Ostrich.Ocsp.DerUtil

open Der

/-! ### The writer -/

/-- The mark of a long length and the number of its octets do not overlap. -/
theorem mark_or {k : ℕ} (h : k ≤ 4) : 0x80 ||| UInt8.ofNat k = UInt8.ofNat (128 + k) := by
  have hall : ∀ k ≤ 4, 0x80 ||| UInt8.ofNat k = UInt8.ofNat (128 + k) := by decide
  exact hall k h

theorem derLength_eq_minLength {n : ℕ} (h : n < 2 ^ 32) : derLength n = minLength n := by
  unfold derLength minLength
  split_ifs with hn
  · rfl
  · dsimp only
    rw [mark_or (length_minBytes h)]

/-- The writer uses the shortest form. -/
theorem tlv_eq_strict (tag : UInt8) {content : List UInt8} (h : content.length < 2 ^ 32) :
    tlv tag content = strict tag content := by
  rw [tlv, strict, derLength_eq_minLength h]

/-! ### The reader -/

theorem low_bits (b : UInt8) : (b &&& 0x7F).toNat = b.toNat % 128 := by
  have hall : ∀ n < 256, (UInt8.ofNat n &&& 0x7F).toNat = (UInt8.ofNat n).toNat % 128 := by
    decide +kernel
  have hb := hall b.toNat b.toNat_lt
  rwa [UInt8.ofNat_toNat] at hb

theorem value_append (tag : UInt8) (content rest : List UInt8) :
    readTlv.value tag content.length (content ++ rest) = some (tag, content, rest) := by
  rw [readTlv.value, if_neg (by rw [List.length_append]; omega), List.take_left, List.drop_left]

theorem value_eq_some {tag t : UInt8} {n : ℕ} {input content rest : List UInt8}
    (h : readTlv.value tag n input = some (t, content, rest)) :
    t = tag ∧ content.length = n ∧ input = content ++ rest := by
  unfold readTlv.value at h
  split_ifs at h with hlen
  obtain ⟨rfl, rfl, rfl⟩ : tag = t ∧ input.take n = content ∧ input.drop n = rest := by
    simpa using h
  refine ⟨rfl, ?_, (List.take_append_drop n input).symm⟩
  rw [List.length_take]
  omega

/-- An element is read, whatever the form of its length. -/
theorem readTlv_element {tag : UInt8} {content bytes : List UInt8} (h : Element tag content bytes)
    (rest : List UInt8) : readTlv (bytes ++ rest) = some (tag, content, rest) := by
  obtain ⟨octets, hoctets, rfl⟩ := h
  have hvalue := value_append tag content rest
  generalize hn : content.length = n at hoctets hvalue
  cases hoctets with
  | @short b hb =>
    have hshort : b < 0x80 := by
      rw [UInt8.lt_iff_toNat_lt]
      exact hb
    show readTlv (tag :: b :: (content ++ rest)) = _
    rw [readTlv, if_pos hshort]
    exact hvalue
  | @long b digits hb hpos hle =>
    have hlong : ¬b < 0x80 := by
      rw [UInt8.lt_iff_toNat_lt, hb]
      show ¬128 + digits.length < 128
      omega
    have hcount : (b &&& 0x7F).toNat = digits.length := by
      rw [low_bits]
      omega
    have hlen := List.length_pos_of_ne_nil hpos
    show readTlv (tag :: b :: (digits ++ content ++ rest)) = _
    rw [List.append_assoc, readTlv, if_neg hlong]
    dsimp only
    rw [hcount, if_neg (by rw [List.length_append]; omega), List.take_left, List.drop_left]
    exact hvalue

/-- What is read is an element. -/
theorem element_of_readTlv {input content rest : List UInt8} {tag : UInt8}
    (h : readTlv input = some (tag, content, rest)) :
    ∃ bytes, Element tag content bytes ∧ input = bytes ++ rest := by
  rcases input with - | ⟨t, - | ⟨b, after⟩⟩
  · cases h
  · cases h
  · rw [readTlv] at h
    by_cases hshort : b < 0x80
    · rw [if_pos hshort] at h
      obtain ⟨rfl, hlen, rfl⟩ := value_eq_some h
      rw [UInt8.lt_iff_toNat_lt] at hshort
      refine ⟨tag :: ([b] ++ content), ⟨[b], ?_, rfl⟩, rfl⟩
      rw [hlen]
      exact .short hshort
    · rw [if_neg hshort] at h
      dsimp only at h
      rw [UInt8.lt_iff_toNat_lt] at hshort
      have hshort : ¬b.toNat < 128 := hshort
      have hlt := b.toNat_lt
      split_ifs at h with hbad
      generalize hcount : (b &&& 0x7F).toNat = k at h hbad
      rw [low_bits] at hcount
      obtain ⟨rfl, hlen, hafter⟩ := value_eq_some h
      have hdigits : (after.take k).length = k := by
        rw [List.length_take]
        omega
      refine ⟨tag :: ((b :: after.take k) ++ content), ⟨b :: after.take k, ?_, rfl⟩, ?_⟩
      · rw [hlen]
        refine .long (by rw [hdigits]; omega) (fun hnil => ?_) (by rw [hdigits]; omega)
        rw [hnil] at hdigits
        have : k = 0 := hdigits.symm
        omega
      · rw [List.cons_append, List.cons_append, List.cons_append, List.append_assoc, ← hafter,
          List.take_append_drop]

/-- **The reader accepts exactly the elements**, with a length of any form. -/
theorem readTlv_eq_some_iff {input content rest : List UInt8} {tag : UInt8} :
    readTlv input = some (tag, content, rest) ↔
      ∃ bytes, Element tag content bytes ∧ input = bytes ++ rest := by
  constructor
  · exact element_of_readTlv
  · rintro ⟨bytes, helement, rfl⟩
    exact readTlv_element helement rest

/-! ### Over-long lengths -/

/-- If the input starts with a complete element, its length octets are the shortest ones. -/
def Minimal (input : List UInt8) : Prop :=
  ∀ tag octets n rest, LengthOctets octets n → n ≤ rest.length →
    input = tag :: (octets ++ rest) → octets = minLength n

/-- **Reader and writer are inverse**, but for the inputs that start with an over-long length. -/
theorem readTlv_inverse_iff (input : List UInt8) :
    (∀ tag content rest, content.length < 2 ^ 32 →
      readTlv (tlv tag content ++ rest) = some (tag, content, rest)) ∧
    ((∀ tag content rest, readTlv input = some (tag, content, rest) →
      input = tlv tag content ++ rest) ↔ Minimal input) := by
  refine ⟨fun tag content rest h => readTlv_tlv tag h rest, ?_⟩
  constructor
  · rintro h tag octets n rest hoctets hle rfl
    have hlen : (rest.take n).length = n := by
      rw [List.length_take]
      omega
    have helement : Element tag (rest.take n) (tag :: (octets ++ rest.take n)) :=
      ⟨octets, by rwa [hlen], rfl⟩
    have hread := readTlv_element helement (rest.drop n)
    rw [List.cons_append, List.append_assoc, List.take_append_drop] at hread
    -- what the reader says is written with the shortest length
    have hwritten := h _ _ _ hread
    have hlt : (rest.take n).length < 2 ^ 32 := by
      rw [hlen]
      exact hoctets.lt
    rw [tlv_eq_strict tag hlt, strict, hlen, List.cons_append, List.append_assoc,
      List.take_append_drop] at hwritten
    exact List.append_cancel_right (List.cons.inj hwritten).2
  · intro hminimal tag content rest hread
    obtain ⟨bytes, ⟨octets, hoctets, rfl⟩, rfl⟩ := element_of_readTlv hread
    have hoctetsEq := hminimal tag octets content.length (content ++ rest) hoctets
      (by rw [List.length_append]; omega) (by rw [List.cons_append, List.append_assoc])
    rw [tlv_eq_strict tag hoctets.lt, strict, ← hoctetsEq]

/-- The reader accepts a length that the writer never writes. -/
theorem readTlv_overlong :
    readTlv [0x04, 0x81, 0x01, 0xAA] = some (0x04, [0xAA], []) ∧
      [0x04, 0x81, 0x01, 0xAA] ≠ tlv 0x04 [0xAA] ++ [] := by
  decide

end Ostrich.Ocsp.DerUtil
