import Ostrich.Lib.Text

/-!
# Base64 (RFC 4648)

`encode` and the strict `decode` of base64url (§5): no padding characters, and the bits of the last
symbol that no byte uses must be zero.  So there is one text for each byte string: `encode_decode`
gives back the text of what `decode` accepts, hence `decode_injective`.

`encodeStandard` and `decodeStandard` use the standard alphabet and padding (§4):
`decodeStandard_encodeStandard`.
-/

namespace Ostrich.Base64

/-! ### The alphabet -/

/-- The symbol of a six-bit value. -/
def symbol (v : ℕ) : Char :=
  if v < 26 then Char.ofNat (65 + v)
  else if v < 52 then Char.ofNat (71 + v)
  else if v < 62 then Char.ofNat (v - 4)
  else if v = 62 then '-' else '_'

/-- The value of a symbol. -/
def value (c : Char) : Option ℕ :=
  let n := c.toNat
  if 65 ≤ n ∧ n ≤ 90 then some (n - 65)
  else if 97 ≤ n ∧ n ≤ 122 then some (n - 71)
  else if 48 ≤ n ∧ n ≤ 57 then some (n + 4)
  else if c = '-' then some 62
  else if c = '_' then some 63
  else none

theorem value_eq_some {c : Char} {v : ℕ} (h : value c = some v) : v < 64 ∧ symbol v = c := by
  have hc : Char.ofNat c.toNat = c := Char.ofNat_toNat c
  unfold value at h
  dsimp only at h
  split_ifs at h with h1 h2 h3 h4 h5
  · obtain rfl := Option.some.inj h
    refine ⟨by omega, ?_⟩
    rw [symbol, if_pos (by omega), show 65 + (c.toNat - 65) = c.toNat by omega, hc]
  · obtain rfl := Option.some.inj h
    refine ⟨by omega, ?_⟩
    rw [symbol, if_neg (by omega), if_pos (by omega),
      show 71 + (c.toNat - 71) = c.toNat by omega, hc]
  · obtain rfl := Option.some.inj h
    refine ⟨by omega, ?_⟩
    rw [symbol, if_neg (by omega), if_neg (by omega), if_pos (by omega),
      show c.toNat + 4 - 4 = c.toNat by omega, hc]
  · obtain rfl := Option.some.inj h
    exact ⟨by decide, h4.symm⟩
  · obtain rfl := Option.some.inj h
    exact ⟨by decide, h5.symm⟩

/-! ### The codec -/

/-- Encode bytes, three at a time. -/
def encodeChars : List UInt8 → List Char
  | [] => []
  | [a] => [symbol (a.toNat / 4), symbol (a.toNat % 4 * 16)]
  | [a, b] =>
    [symbol (a.toNat / 4), symbol (a.toNat % 4 * 16 + b.toNat / 16), symbol (b.toNat % 16 * 4)]
  | a :: b :: c :: rest =>
    symbol (a.toNat / 4) :: symbol (a.toNat % 4 * 16 + b.toNat / 16)
      :: symbol (b.toNat % 16 * 4 + c.toNat / 64) :: symbol (c.toNat % 64) :: encodeChars rest

/-- Decode symbols, four at a time. -/
def decodeChars : List Char → Option (List UInt8)
  | [] => some []
  | [_] => none
  | [a, b] => do
    let v ← value a
    let w ← value b
    if w % 16 ≠ 0 then none else some [UInt8.ofNat (v * 4 + w / 16)]
  | [a, b, c] => do
    let v ← value a
    let w ← value b
    let x ← value c
    if x % 4 ≠ 0 then none
    else some [UInt8.ofNat (v * 4 + w / 16), UInt8.ofNat (w % 16 * 16 + x / 4)]
  | a :: b :: c :: d :: rest => do
    let v ← value a
    let w ← value b
    let x ← value c
    let y ← value d
    let bytes ← decodeChars rest
    some (UInt8.ofNat (v * 4 + w / 16) :: UInt8.ofNat (w % 16 * 16 + x / 4)
      :: UInt8.ofNat (x % 4 * 64 + y) :: bytes)

def encode (bytes : List UInt8) : String := String.ofList (encodeChars bytes)

def decode (text : String) : Option (List UInt8) := decodeChars text.toList

theorem toNat_ofNat_lt {n : ℕ} (h : n < 256) : (UInt8.ofNat n).toNat = n := by
  rw [UInt8.toNat_ofNat']
  omega

/-- What `decode` accepts is the encoding of what it gives. -/
theorem encode_decodeChars : ∀ (s : List Char) (bytes : List UInt8),
    decodeChars s = some bytes → encodeChars bytes = s := by
  intro s
  induction s using decodeChars.induct with
  | case1 => intro bytes h; obtain rfl := Option.some.inj h; rfl
  | case2 a => intro bytes h; simp [decodeChars] at h
  | case3 a b =>
    intro bytes h
    simp only [decodeChars, Option.bind_eq_bind, Option.bind_eq_some_iff] at h
    obtain ⟨v, hv, w, hw, h⟩ := h
    split_ifs at h with h0
    obtain rfl := Option.some.inj h
    obtain ⟨hv64, hva⟩ := value_eq_some hv
    obtain ⟨hw64, hwb⟩ := value_eq_some hw
    rw [encodeChars, toNat_ofNat_lt (by omega), show (v * 4 + w / 16) / 4 = v by omega,
      show (v * 4 + w / 16) % 4 * 16 = w by omega, hva, hwb]
  | case4 a b c =>
    intro bytes h
    simp only [decodeChars, Option.bind_eq_bind, Option.bind_eq_some_iff] at h
    obtain ⟨v, hv, w, hw, x, hx, h⟩ := h
    split_ifs at h with h0
    obtain rfl := Option.some.inj h
    obtain ⟨hv64, hva⟩ := value_eq_some hv
    obtain ⟨hw64, hwb⟩ := value_eq_some hw
    obtain ⟨hx64, hxc⟩ := value_eq_some hx
    rw [encodeChars, toNat_ofNat_lt (by omega), toNat_ofNat_lt (by omega),
      show (v * 4 + w / 16) / 4 = v by omega,
      show (v * 4 + w / 16) % 4 * 16 + (w % 16 * 16 + x / 4) / 16 = w by omega,
      show (w % 16 * 16 + x / 4) % 16 * 4 = x by omega, hva, hwb, hxc]
  | case5 a b c d rest ih =>
    intro bytes h
    simp only [decodeChars, Option.bind_eq_bind, Option.bind_eq_some_iff] at h
    obtain ⟨v, hv, w, hw, x, hx, y, hy, tail, htail, h⟩ := h
    obtain rfl := Option.some.inj h
    obtain ⟨hv64, hva⟩ := value_eq_some hv
    obtain ⟨hw64, hwb⟩ := value_eq_some hw
    obtain ⟨hx64, hxc⟩ := value_eq_some hx
    obtain ⟨hy64, hyd⟩ := value_eq_some hy
    rw [encodeChars, toNat_ofNat_lt (by omega), toNat_ofNat_lt (by omega),
      toNat_ofNat_lt (by omega), show (v * 4 + w / 16) / 4 = v by omega,
      show (v * 4 + w / 16) % 4 * 16 + (w % 16 * 16 + x / 4) / 16 = w by omega,
      show (w % 16 * 16 + x / 4) % 16 * 4 + (x % 4 * 64 + y) / 64 = x by omega,
      show (x % 4 * 64 + y) % 64 = y by omega, hva, hwb, hxc, hyd, ih tail htail]

theorem encode_decode {text : String} {bytes : List UInt8} (h : decode text = some bytes) :
    encode bytes = text := by
  rw [encode, encode_decodeChars _ _ h, String.ofList_toList]

/-- **One text for each byte string.** -/
theorem decode_injective {s t : String} {bytes : List UInt8} (hs : decode s = some bytes)
    (ht : decode t = some bytes) : s = t := by
  rw [← encode_decode hs, encode_decode ht]

/-- The symbols of an accepted text are symbols of the alphabet. -/
theorem value_isSome_of_decode : ∀ (s : List Char) (bytes : List UInt8),
    decodeChars s = some bytes → ∀ c ∈ s, (value c).isSome := by
  intro s
  induction s using decodeChars.induct with
  | case1 => simp
  | case2 a => intro bytes h; simp [decodeChars] at h
  | case3 a b =>
    intro bytes h
    simp only [decodeChars, Option.bind_eq_bind, Option.bind_eq_some_iff] at h
    obtain ⟨v, hv, w, hw, -⟩ := h
    simp [hv, hw]
  | case4 a b c =>
    intro bytes h
    simp only [decodeChars, Option.bind_eq_bind, Option.bind_eq_some_iff] at h
    obtain ⟨v, hv, w, hw, x, hx, -⟩ := h
    simp [hv, hw, hx]
  | case5 a b c d rest ih =>
    intro bytes h
    simp only [decodeChars, Option.bind_eq_bind, Option.bind_eq_some_iff] at h
    obtain ⟨v, hv, w, hw, x, hx, y, hy, tail, htail, -⟩ := h
    simpa [hv, hw, hx, hy] using ih tail htail

/-! ### Decoding what was encoded -/

theorem value_symbol {v : ℕ} (h : v < 64) : value (symbol v) = some v := by
  have hall : ∀ v < 64, value (symbol v) = some v := by decide
  exact hall v h

theorem ofNat_toNat_of_eq {n : ℕ} {b : UInt8} (h : n = b.toNat) : UInt8.ofNat n = b := by
  rw [h, UInt8.ofNat_toNat]

/-- What is encoded is decoded. -/
theorem decode_encodeChars : ∀ bytes : List UInt8, decodeChars (encodeChars bytes) = some bytes
  | [] => rfl
  | [a] => by
    have ha := a.toNat_lt
    rw [encodeChars, decodeChars, value_symbol (by omega), value_symbol (by omega)]
    show (if a.toNat % 4 * 16 % 16 ≠ 0 then none else some _) = _
    rw [if_neg (by omega), ofNat_toNat_of_eq (b := a) (by omega)]
  | [a, b] => by
    have ha := a.toNat_lt
    have hb := b.toNat_lt
    rw [encodeChars, decodeChars, value_symbol (by omega), value_symbol (by omega),
      value_symbol (by omega)]
    show (if b.toNat % 16 * 4 % 4 ≠ 0 then none else some _) = _
    rw [if_neg (by omega), ofNat_toNat_of_eq (b := a) (by omega),
      ofNat_toNat_of_eq (b := b) (by omega)]
  | a :: b :: c :: rest => by
    have ha := a.toNat_lt
    have hb := b.toNat_lt
    have hc := c.toNat_lt
    have ih := decode_encodeChars rest
    rw [encodeChars, decodeChars, value_symbol (by omega), value_symbol (by omega),
      value_symbol (by omega), value_symbol (by omega), ih]
    show some _ = _
    rw [ofNat_toNat_of_eq (b := a) (by omega), ofNat_toNat_of_eq (b := b) (by omega),
      ofNat_toNat_of_eq (b := c) (by omega)]

theorem exists_symbol_of_mem_encodeChars : ∀ {bytes : List UInt8}, ∀ c ∈ encodeChars bytes,
    ∃ v < 64, symbol v = c := by
  intro bytes
  induction bytes using encodeChars.induct with
  | case1 => simp [encodeChars]
  | case2 a =>
    have ha := a.toNat_lt
    intro c hc
    simp only [encodeChars, List.mem_cons, List.not_mem_nil, or_false] at hc
    rcases hc with rfl | rfl
    · exact ⟨_, by omega, rfl⟩
    · exact ⟨_, by omega, rfl⟩
  | case3 a b =>
    have ha := a.toNat_lt
    have hb := b.toNat_lt
    intro c hc
    simp only [encodeChars, List.mem_cons, List.not_mem_nil, or_false] at hc
    rcases hc with rfl | rfl | rfl
    · exact ⟨_, by omega, rfl⟩
    · exact ⟨_, by omega, rfl⟩
    · exact ⟨_, by omega, rfl⟩
  | case4 a b c rest ih =>
    have ha := a.toNat_lt
    have hb := b.toNat_lt
    have hc := c.toNat_lt
    intro x hx
    simp only [encodeChars, List.mem_cons] at hx
    rcases hx with rfl | rfl | rfl | rfl | hx
    · exact ⟨_, by omega, rfl⟩
    · exact ⟨_, by omega, rfl⟩
    · exact ⟨_, by omega, rfl⟩
    · exact ⟨_, by omega, rfl⟩
    · exact ih x hx

/-! ### The standard alphabet with padding (RFC 4648 §4) -/

/-- The standard symbol for a symbol of the other alphabet. -/
def toStandard (c : Char) : Char := if c = '-' then '+' else if c = '_' then '/' else c

/-- The symbol of the other alphabet for a standard symbol. -/
def ofStandard (c : Char) : Option Char :=
  if c = '+' then some '-' else if c = '/' then some '_'
  else if c = '-' ∨ c = '_' then none else some c

/-- Fill up to whole groups of four. -/
def pad (l : List Char) : List Char := l ++ List.replicate ((4 - l.length % 4) % 4) '='

/-- Encode with the standard alphabet and padding. -/
def encodeStandard (bytes : List UInt8) : List Char := pad ((encodeChars bytes).map toStandard)

/-- Decode; the padding must be there, and no more of it than needed. -/
def decodeStandard (text : List Char) : Option (List UInt8) :=
  let body := text.takeWhile (· ≠ '=')
  if text = pad body then (body.mapM ofStandard).bind decodeChars else none

theorem standard_symbol {v : ℕ} (h : v < 64) :
    ofStandard (toStandard (symbol v)) = some (symbol v) ∧ toStandard (symbol v) ≠ '=' ∧
      toStandard (symbol v) ≠ '-' ∧ Text.isWhitespace (toStandard (symbol v)) = false := by
  have hall : ∀ v < 64, ofStandard (toStandard (symbol v)) = some (symbol v) ∧
      toStandard (symbol v) ≠ '=' ∧ toStandard (symbol v) ≠ '-' ∧
      Text.isWhitespace (toStandard (symbol v)) = false := by decide
  exact hall v h

theorem mapM_ofStandard {l : List Char} (h : ∀ c ∈ l, ∃ v < 64, symbol v = c) :
    (l.map toStandard).mapM ofStandard = some l := by
  induction l with
  | nil => rfl
  | cons c l ih =>
    obtain ⟨v, hv, rfl⟩ := h c List.mem_cons_self
    rw [List.map_cons, List.mapM_cons, (standard_symbol hv).1,
      ih fun d hd => h d (List.mem_cons_of_mem _ hd)]
    rfl

/-- **What is encoded is decoded**, with the standard alphabet and padding. -/
theorem decodeStandard_encodeStandard (bytes : List UInt8) :
    decodeStandard (encodeStandard bytes) = some bytes := by
  have hsymbols : ∀ c ∈ encodeChars bytes, ∃ v < 64, symbol v = c :=
    exists_symbol_of_mem_encodeChars
  have hbody : (encodeStandard bytes).takeWhile (· ≠ '=') = (encodeChars bytes).map toStandard := by
    have hall : ∀ c ∈ (encodeChars bytes).map toStandard, decide (c ≠ '=') = true := by
      intro c hc
      obtain ⟨d, hd, rfl⟩ := List.mem_map.mp hc
      obtain ⟨v, hv, rfl⟩ := hsymbols d hd
      exact decide_eq_true (standard_symbol hv).2.1
    rw [encodeStandard, pad, List.takeWhile_append_of_pos hall]
    cases (4 - ((encodeChars bytes).map toStandard).length % 4) % 4 with
    | zero => simp
    | succ k => simp [List.replicate_succ]
  unfold decodeStandard
  dsimp only
  have htext : encodeStandard bytes = pad ((encodeChars bytes).map toStandard) := rfl
  rw [hbody, if_pos htext, mapM_ofStandard hsymbols]
  exact decode_encodeChars bytes

/-- The text has no hyphens and no white space. -/
theorem encodeStandard_clean {bytes : List UInt8} {c : Char} (hc : c ∈ encodeStandard bytes) :
    c ≠ '-' ∧ Text.isWhitespace c = false := by
  unfold encodeStandard pad at hc
  rcases List.mem_append.mp hc with hc | hc
  · obtain ⟨d, hd, rfl⟩ := List.mem_map.mp hc
    obtain ⟨v, hv, rfl⟩ := exists_symbol_of_mem_encodeChars d hd
    exact (standard_symbol hv).2.2
  · rw [List.eq_of_mem_replicate hc]
    decide

end Ostrich.Base64
