import Mathlib.Data.List.Chain
import Ostrich.Common.GrpcDn

/-!
# What `validateDnEscapes` accepts

`validateDnEscapes_eq_ok_iff`: it accepts the texts that are read as tokens (bytes that stand for
themselves, escaped characters, pairs of hexadecimal digits) such that no escaped comma or plus
directly follows an escaped backslash, and the bytes the tokens stand for are UTF-8.
-/

namespace Ostrich.Common.GrpcDn

open Escaped

def special (b : UInt8) : Bool := b ∈ dnEscapable

theorem special_iff {b : UInt8} : special b = true ↔ b ∈ dnEscapable := decide_eq_true_iff

/-- No hexadecimal digit may follow a backslash on its own. -/
theorem isHexDigit_of_special (c : UInt8) (h : special c = true) : isHexDigit c = false := by
  have hall : ∀ c ∈ dnEscapable, isHexDigit c = false := by decide +kernel
  exact hall c (special_iff.1 h)

/-- The token is an escaped comma or plus. -/
def IsEscapedSep (t : Token) : Prop := t = .char 0x2c ∨ t = .char 0x2b

/-- `u` may follow `t`: it is no escaped comma or plus after an escaped backslash. -/
def MayFollow (t u : Token) : Prop := ¬ (t = .char backslash ∧ IsEscapedSep u)

/-- The tokens of an accepted name. -/
def Accepted (ts : List Token) : Prop := ts.IsChain MayFollow ∧ Utf8 (bytes ts)

/-! ### Decoding -/

/-- The escapes of a text stand for the bytes of its tokens. -/
theorem unescapeDnBytes_text : ∀ {ts : List Token}, (∀ t ∈ ts, t.Ok special) →
    unescapeDnBytes (text ts) = bytes ts
  | [], _ => by simp [unescapeDnBytes, bytes]
  | .plain b :: ts, h => by
    have hb : b ≠ backslash := h (.plain b) (by simp)
    have hrest := unescapeDnBytes_text fun t ht => h t (List.mem_cons_of_mem _ ht)
    show unescapeDnBytes (b :: text ts) = b :: bytes ts
    unfold unescapeDnBytes
    rw [if_pos hb, hrest]
  | .char c :: ts, h => by
    have hc : isHexDigit c = false := isHexDigit_of_special c (h (.char c) (by simp))
    have hrest := unescapeDnBytes_text fun t ht => h t (List.mem_cons_of_mem _ ht)
    show unescapeDnBytes (backslash :: c :: text ts) = c :: bytes ts
    unfold unescapeDnBytes
    rw [if_neg (not_not.2 rfl)]
    cases hts : text ts with
    | nil =>
      rw [hts, unescapeDnBytes] at hrest
      simp only [← hrest]
    | cons l rest =>
      simp only [hc, Bool.false_and, Bool.false_eq_true, if_false]
      rw [← hts, hrest]
  | .hex g l :: ts, h => by
    have hhex : isHexDigit g = true ∧ isHexDigit l = true := h (.hex g l) (by simp)
    have hrest := unescapeDnBytes_text fun t ht => h t (List.mem_cons_of_mem _ ht)
    show unescapeDnBytes (backslash :: g :: l :: text ts)
      = (hexValue g <<< 4 ||| hexValue l) :: bytes ts
    unfold unescapeDnBytes
    rw [if_neg (not_not.2 rfl)]
    simp only [hhex.1, hhex.2, Bool.and_self, if_true, hrest]

/-! ### The loop -/

/-- The loop accepts tokens in which nothing follows that may not. -/
theorem loop_text : ∀ {ts : List Token} (prev : Option UInt8), (∀ t ∈ ts, t.Ok special) →
    ts.IsChain MayFollow → (prev = some backslash → ∀ t ∈ ts.head?, ¬ IsEscapedSep t) →
      validateDnEscapes.loop prev (text ts) = .ok ()
  | [], prev, _, _, _ => by
    show validateDnEscapes.loop prev [] = .ok ()
    unfold validateDnEscapes.loop
    rfl
  | .plain b :: ts, prev, h, hchain, _ => by
    have hb : b ≠ backslash := h (.plain b) (by simp)
    show validateDnEscapes.loop prev (b :: text ts) = .ok ()
    unfold validateDnEscapes.loop
    rw [if_pos hb]
    refine loop_text _ (fun t ht => h t (List.mem_cons_of_mem _ ht)) hchain.tail ?_
    intro hprev
    exact absurd (Option.some.inj hprev) hb
  | .char c :: ts, prev, h, hchain, hprev => by
    have hspecial : special c = true := h (.char c) (by simp)
    have hrest : validateDnEscapes.loop (some c) (text ts) = .ok () := by
      refine loop_text _ (fun t ht => h t (List.mem_cons_of_mem _ ht)) hchain.tail ?_
      intro hc t ht hsep
      rw [Option.some.inj hc] at hchain
      exact hchain.rel_head? ht ⟨rfl, hsep⟩
    show validateDnEscapes.loop prev (backslash :: c :: text ts) = .ok ()
    unfold validateDnEscapes.loop
    rw [if_neg (not_not.2 rfl)]
    by_cases hsep : c = 0x2c ∨ c = 0x2b
    · have hprev' : prev ≠ some backslash := by
        intro heq
        refine hprev heq (.char c) rfl ?_
        rcases hsep with rfl | rfl
        · exact Or.inl rfl
        · exact Or.inr rfl
      simp only [if_pos hsep, if_neg hprev', hrest]
    · simp only [if_neg hsep, if_pos (special_iff.1 hspecial), hrest]
  | .hex g l :: ts, prev, h, hchain, _ => by
    have hhex : isHexDigit g = true ∧ isHexDigit l = true := h (.hex g l) (by simp)
    have hspecial : g ∉ dnEscapable := by
      intro hmem
      have hno := isHexDigit_of_special g (special_iff.2 hmem)
      rw [hhex.1] at hno
      cases hno
    have hsep : ¬ (g = 0x2c ∨ g = 0x2b) := by
      rintro (rfl | rfl)
      · exact hspecial (by decide)
      · exact hspecial (by decide)
    have hl : l ≠ backslash := by
      rintro rfl
      exact absurd hhex.2 (by decide)
    show validateDnEscapes.loop prev (backslash :: g :: l :: text ts) = .ok ()
    unfold validateDnEscapes.loop
    rw [if_neg (not_not.2 rfl)]
    simp only [if_neg hsep, if_neg hspecial, hhex.1, hhex.2, if_true]
    refine loop_text _ (fun t ht => h t (List.mem_cons_of_mem _ ht)) hchain.tail ?_
    intro hprev
    exact absurd (Option.some.inj hprev) hl

/-- What the loop accepts is read as tokens in which nothing follows that may not. -/
theorem exists_reads_of_loop (prev : Option UInt8) (s : List UInt8)
    (h : validateDnEscapes.loop prev s = .ok ()) :
    ∃ ts, Reads special s ts ∧ ts.IsChain MayFollow ∧
      (prev = some backslash → ∀ t ∈ ts.head?, ¬ IsEscapedSep t) := by
  fun_induction validateDnEscapes.loop prev s with
  | case1 prev => exact ⟨[], ⟨by simp, rfl⟩, .nil, by simp⟩
  | case2 prev b rest hb ih =>
    obtain ⟨ts, hreads, hchain, -⟩ := ih h
    refine ⟨.plain b :: ts, hreads.cons (t := .plain b) hb, hchain.cons ?_, ?_⟩
    · rintro u - ⟨hplain, -⟩
      cases hplain
    · rintro - u hu (rfl | rfl) <;> cases hu
  | case3 prev b hb => cases h
  | case4 b hb next rest hsep => cases h
  | case5 prev b hb next rest hsep hprev ih =>
    obtain ⟨ts, hreads, hchain, -⟩ := ih h
    have hb' : b = backslash := not_not.1 hb
    have hok : special next = true := by
      rcases hsep with rfl | rfl <;> decide
    refine ⟨.char next :: ts, hb' ▸ hreads.cons (t := .char next) hok, hchain.cons ?_, ?_⟩
    · rintro u - ⟨hchar, -⟩
      obtain rfl := Token.char.inj hchar
      exact absurd hsep (by decide)
    · intro hback
      exact absurd hback hprev
  | case6 prev b hb next rest hsep hmem ih =>
    obtain ⟨ts, hreads, hchain, hnext⟩ := ih h
    have hb' : b = backslash := not_not.1 hb
    refine ⟨.char next :: ts, hb' ▸ hreads.cons (t := .char next) (special_iff.2 hmem),
      hchain.cons ?_, ?_⟩
    · rintro u hu ⟨hchar, husep⟩
      obtain rfl := Token.char.inj hchar
      exact hnext rfl u hu husep
    · rintro - u hu husep
      obtain rfl : Token.char next = u := Option.some.inj hu
      apply hsep
      rcases husep with hc | hc
      · exact Or.inl (Token.char.inj hc)
      · exact Or.inr (Token.char.inj hc)
  | case7 prev b hb next hsep hmem hhex => cases h
  | case8 prev b hb next hsep hmem hhex low rest hlow ih =>
    obtain ⟨ts, hreads, hchain, -⟩ := ih h
    have hb' : b = backslash := not_not.1 hb
    refine ⟨.hex next low :: ts, hb' ▸ hreads.cons (t := .hex next low) ⟨hhex, hlow⟩,
      hchain.cons ?_, ?_⟩
    · rintro u - ⟨hchar, -⟩
      cases hchar
    · rintro - u hu (rfl | rfl) <;> cases hu
  | case9 prev b hb next hsep hmem hhex low rest hlow => cases h
  | case10 prev b hb next rest hsep hmem hhex => cases h

/-- **`validateDnEscapes` accepts the texts whose tokens are accepted.** -/
theorem validateDnEscapes_eq_ok_iff {dn : List UInt8} :
    validateDnEscapes dn = .ok () ↔ ∃ ts, Reads special dn ts ∧ Accepted ts := by
  unfold validateDnEscapes
  constructor
  · intro h
    cases hloop : validateDnEscapes.loop none dn with
    | error e =>
      rw [hloop] at h
      cases h
    | ok u =>
      rw [hloop] at h
      dsimp only at h
      split_ifs at h with hutf8
      obtain ⟨ts, hreads, hchain, -⟩ := exists_reads_of_loop none dn hloop
      rw [← hreads.2, unescapeDnBytes_text hreads.1, validateUtf8_iff] at hutf8
      exact ⟨ts, hreads, hchain, hutf8⟩
  · rintro ⟨ts, hreads, hchain, hutf8⟩
    rw [← hreads.2, loop_text none hreads.1 hchain (fun h => by cases h),
      unescapeDnBytes_text hreads.1]
    dsimp only
    rw [if_pos (validateUtf8_iff.2 hutf8)]

/-- The tokens of an accepted name, however they are found. -/
theorem accepted_of_reads {dn : List UInt8} {ts : List Token} (hreads : Reads special dn ts) :
    validateDnEscapes dn = .ok () ↔ Accepted ts := by
  rw [validateDnEscapes_eq_ok_iff]
  constructor
  · rintro ⟨us, hreads', haccepted⟩
    rwa [hreads.unique isHexDigit_of_special hreads'] at haccepted
  · intro h
    exact ⟨ts, hreads, h⟩

end Ostrich.Common.GrpcDn
