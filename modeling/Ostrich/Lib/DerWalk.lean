import Ostrich.Lib.Der

/-!
# DER elements with lengths in any form

A reader that does not insist on the shortest form accepts several length octets for one length
(`LengthOctets`, with four octets at most after the first one), and so several encodings of one
element (`Element`).  The shortest form is `minLength`, and `strict` is the element with it; for
contents below `2 ^ 32` it is `Der.tlv`.

Length octets and elements are prefix codes in any form (`LengthOctets.append_inj`,
`Element.append_inj`), and what is read of a strict element is its content (`strict_append_inj`).
Codes of which no one begins another are read in one way when they stand one after another
(`flatMap_inj`).
-/

namespace Ostrich.Der

/-! ### Length octets -/

/-- The octets stand for this length. -/
inductive LengthOctets : List UInt8 → ℕ → Prop
  | short {b : UInt8} (h : b.toNat < 128) : LengthOctets [b] b.toNat
  | long {b : UInt8} {digits : List UInt8} (hb : b.toNat = 128 + digits.length)
      (hpos : digits ≠ []) (hle : digits.length ≤ 4) : LengthOctets (b :: digits) (ofBytes digits)

theorem LengthOctets.lt {octets : List UInt8} {n : ℕ} (h : LengthOctets octets n) : n < 2 ^ 32 := by
  cases h with
  | @short b hb => omega
  | @long b digits hb hpos hle =>
    calc ofBytes digits < 256 ^ digits.length := ofBytes_lt digits
      _ ≤ 256 ^ 4 := Nat.pow_le_pow_right (by decide) hle
      _ = 2 ^ 32 := by decide

theorem LengthOctets.length_le {octets : List UInt8} {n : ℕ} (h : LengthOctets octets n) :
    octets.length ≤ 5 := by
  cases h with
  | short hb => simp
  | long hb hpos hle =>
    rw [List.length_cons]
    omega

theorem LengthOctets.ne_nil {octets : List UInt8} {n : ℕ} (h : LengthOctets octets n) :
    octets ≠ [] := by
  cases h <;> exact List.cons_ne_nil _ _

/-- The first octet says how many there are. -/
theorem LengthOctets.append_inj {a b : List UInt8} {m n : ℕ} {rest rest' : List UInt8}
    (ha : LengthOctets a m) (hb : LengthOctets b n) (h : a ++ rest = b ++ rest') :
    a = b ∧ m = n ∧ rest = rest' := by
  cases ha with
  | @short x hx =>
    cases hb with
    | @short y hy =>
      obtain ⟨rfl, hrest⟩ := List.cons.inj h
      exact ⟨rfl, rfl, hrest⟩
    | @long y digits hy hpos hle =>
      obtain ⟨rfl, -⟩ := List.cons.inj h
      omega
  | @long x digits hx hpos hle =>
    cases hb with
    | @short y hy =>
      obtain ⟨rfl, -⟩ := List.cons.inj h
      omega
    | @long y digits' hy hpos' hle' =>
      obtain ⟨rfl, htail⟩ := List.cons.inj h
      obtain ⟨rfl, hrest⟩ := List.append_inj htail (by omega)
      exact ⟨rfl, rfl, hrest⟩

/-- The shortest form of a length. -/
def minLength (n : ℕ) : List UInt8 :=
  if n < 128 then [UInt8.ofNat n]
  else UInt8.ofNat (128 + (minBytes n).length) :: minBytes n

theorem minLength_eq_lenBytes {n : ℕ} (h : n < 2 ^ 32) : minLength n = lenBytes n := by
  have hdigits : (be4 n).dropWhile (· = 0) = minBytes n := by
    rw [← minBytes_ofBytes, ofBytes_be4 h]
  unfold minLength lenBytes
  dsimp only
  rw [hdigits]

theorem lengthOctets_minLength {n : ℕ} (h : n < 2 ^ 32) : LengthOctets (minLength n) n := by
  unfold minLength
  by_cases hn : n < 128
  · rw [if_pos hn]
    have hto : (UInt8.ofNat n).toNat = n := by
      rw [UInt8.toNat_ofNat']
      omega
    have hshort := LengthOctets.short (b := UInt8.ofNat n) (by omega)
    rwa [hto] at hshort
  · rw [if_neg hn]
    have hle := length_minBytes h
    have hto : (UInt8.ofNat (128 + (minBytes n).length)).toNat = 128 + (minBytes n).length := by
      rw [UInt8.toNat_ofNat']
      omega
    have hpos : minBytes n ≠ [] := by
      intro hnil
      have hzero := ofBytes_minBytes n
      rw [hnil] at hzero
      exact hn (by rw [← hzero]; decide)
    have hlong := LengthOctets.long hto hpos hle
    rwa [ofBytes_minBytes] at hlong

/-! ### Elements -/

/-- The octets are an element with this tag and content. -/
def Element (tag : UInt8) (content bytes : List UInt8) : Prop :=
  ∃ octets, LengthOctets octets content.length ∧ bytes = tag :: (octets ++ content)

/-- The element with the shortest length. -/
def strict (tag : UInt8) (content : List UInt8) : List UInt8 :=
  tag :: (minLength content.length ++ content)

theorem strict_eq_tlv (tag : UInt8) {content : List UInt8} (h : content.length < 2 ^ 32) :
    strict tag content = tlv tag content := by
  rw [strict, tlv, minLength_eq_lenBytes h]

theorem element_strict (tag : UInt8) {content : List UInt8} (h : content.length < 2 ^ 32) :
    Element tag content (strict tag content) := ⟨_, lengthOctets_minLength h, rfl⟩

/-- **Elements are a prefix code**, whatever the form of their lengths. -/
theorem Element.append_inj {tag : UInt8} {content content' a b rest rest' : List UInt8}
    (ha : Element tag content a) (hb : Element tag content' b) (h : a ++ rest = b ++ rest') :
    content = content' ∧ a = b ∧ rest = rest' := by
  obtain ⟨octets, hoctets, rfl⟩ := ha
  obtain ⟨octets', hoctets', rfl⟩ := hb
  rw [List.cons_append, List.cons_append, List.append_assoc, List.append_assoc] at h
  obtain ⟨rfl, hlen, htail⟩ := hoctets.append_inj hoctets' (List.cons.inj h).2
  obtain ⟨rfl, hrest⟩ := List.append_inj htail hlen
  exact ⟨rfl, rfl, hrest⟩

/-- A length below `2 ^ 64` has at most eight octets after the first one. -/
theorem length_minBytes_le {n : ℕ} (h : n < 2 ^ 64) : (minBytes n).length ≤ 8 := by
  unfold minBytes
  rw [List.length_map, List.length_reverse]
  exact (Nat.digits_length_le_iff (by decide) _).2 h

theorem length_strict_le (tag : UInt8) {content : List UInt8} (h : content.length < 2 ^ 64) :
    (strict tag content).length ≤ content.length + 10 := by
  have hle := length_minBytes_le h
  unfold strict minLength
  split_ifs
  · simp
  · rw [List.length_cons, List.length_append, List.length_cons]
    omega

/-- A length that takes more than four octets is in no form that is read. -/
theorem lt_of_lengthOctets_minLength {m n : ℕ} {rest rest' octets : List UInt8} (hn : n < 2 ^ 64)
    (h : LengthOctets octets m) (heq : minLength n ++ rest = octets ++ rest') : n < 2 ^ 32 := by
  by_contra hge
  have hupper := length_minBytes_le hn
  have hlower : 4 < (minBytes n).length := by
    have hlt := ofBytes_lt (minBytes n)
    rw [ofBytes_minBytes] at hlt
    have hpow : 256 ^ 4 < 256 ^ (minBytes n).length :=
      calc 256 ^ 4 = 2 ^ 32 := by decide
        _ ≤ n := Nat.le_of_not_lt hge
        _ < 256 ^ (minBytes n).length := hlt
    exact (Nat.pow_lt_pow_iff_right (by decide)).mp hpow
  have hfirst : (UInt8.ofNat (128 + (minBytes n).length)).toNat = 128 + (minBytes n).length := by
    rw [UInt8.toNat_ofNat']
    omega
  rw [minLength, if_neg (by omega), List.cons_append] at heq
  cases h with
  | @short b hb =>
    obtain ⟨rfl, -⟩ := List.cons.inj heq
    omega
  | @long b digits hb hpos hle =>
    obtain ⟨rfl, -⟩ := List.cons.inj heq
    omega

/-- What is read of an element with the shortest length is its content. -/
theorem strict_append_inj {tag : UInt8} {a content bytes rest rest' : List UInt8}
    (ha : a.length < 2 ^ 64) (hb : Element tag content bytes)
    (h : strict tag a ++ rest = bytes ++ rest') :
    a.length < 2 ^ 32 ∧ content = a ∧ bytes = strict tag a ∧ rest = rest' := by
  have hlt : a.length < 2 ^ 32 := by
    obtain ⟨octets, hoctets, rfl⟩ := hb
    rw [strict, List.cons_append, List.cons_append, List.append_assoc, List.append_assoc] at h
    exact lt_of_lengthOctets_minLength ha hoctets (List.cons.inj h).2
  obtain ⟨hcontent, hbytes, hrest⟩ := (element_strict tag hlt).append_inj hb h
  exact ⟨hlt, hcontent.symm, hbytes.symm, hrest⟩

/-! ### Codes one after another -/

/-- Codes of which no one begins another, one after another, are read in one way only. -/
theorem flatMap_inj {α : Type} {code : α → List UInt8} {P : α → Prop}
    (hcode : ∀ {a b rest rest'}, P a → P b → code a ++ rest = code b ++ rest' →
      a = b ∧ rest = rest')
    (hne : ∀ a, code a ≠ []) : ∀ {l l' : List α}, (∀ a ∈ l, P a) → (∀ a ∈ l', P a) →
    l.flatMap code = l'.flatMap code → l = l' := by
  intro l
  induction l with
  | nil =>
    intro l' _ _ h
    cases l' with
    | nil => rfl
    | cons b l' =>
      rw [List.flatMap_nil, List.flatMap_cons] at h
      exact absurd (List.append_eq_nil_iff.mp h.symm).1 (hne b)
  | cons a l ih =>
    intro l' hl hl' h
    cases l' with
    | nil =>
      rw [List.flatMap_nil, List.flatMap_cons] at h
      exact absurd (List.append_eq_nil_iff.mp h).1 (hne a)
    | cons b l' =>
      obtain ⟨ha, hl⟩ := List.forall_mem_cons.mp hl
      obtain ⟨hb, hl'⟩ := List.forall_mem_cons.mp hl'
      rw [List.flatMap_cons, List.flatMap_cons] at h
      obtain ⟨hab, hrest⟩ := hcode ha hb h
      rw [hab, ih hl hl' hrest]

theorem length_le_tlv (tag : UInt8) (content : List UInt8) :
    content.length ≤ (tlv tag content).length := by
  rw [tlv, List.length_cons, List.length_append]
  omega

theorem length_le_flatMap {α : Type} (code : α → List UInt8) {a : α} {l : List α} (h : a ∈ l) :
    (code a).length ≤ (l.flatMap code).length := by
  obtain ⟨before, after, rfl⟩ := List.append_of_mem h
  rw [List.flatMap_append, List.flatMap_cons, List.length_append, List.length_append]
  omega

end Ostrich.Der
