import Mathlib.Data.List.TakeDrop
import Ostrich.Common.Equiv.DnEscapes

/-!
# Names as tokens

A name is read as tokens; the commas and pluses that are not escaped cut it into components, and the
first `=` that is not escaped cuts a component into a type and a value (`typeAndValue`), of which
the padding at both ends does not count.

`normalizeDnSpacing_text` goes from the bytes to the tokens: the code normalizes a name component by
component, and `pushDnComponent_text` says what it does to the tokens of one.
-/

namespace Ostrich.Common.GrpcDn

open Escaped

/-! ### Names as tokens -/

/-- Padding that is not escaped. -/
def isPad : Token → Bool
  | .plain b => isDnPadding b
  | _ => false

/-- A separator that is not escaped. -/
def isSep : Token → Bool
  | .plain b => b = 0x2c || b = 0x2b
  | _ => false

/-- An equals sign, escaped or not. -/
def isEq : Token → Bool
  | .plain b => b = 0x3d
  | .char c => c = 0x3d
  | .hex _ _ => false

/-- The tokens without the padding at both ends. -/
def trimPad (ts : List Token) : List Token := (ts.dropWhile isPad).rdropWhile isPad

/-- The first component, and the others, each with the separator before it. -/
def components : List Token → List Token × List (UInt8 × List Token)
  | [] => ([], [])
  | t :: ts =>
    if isSep t then ([], (t.byte, (components ts).1) :: (components ts).2)
    else (t :: (components ts).1, (components ts).2)

/-- The tokens before the first equals sign that is not escaped, and from it on. -/
def splitType (c : List Token) : List Token × List Token := c.span (· ≠ .plain 0x3d)

/-- The type and the value of a component (or its text, if there is no equals sign), unescaped and
without padding. -/
def typeAndValue (c : List Token) : List UInt8 × Option (List UInt8) :=
  match splitType c with
  | (type, []) => (bytes (trimPad type), none)
  | (type, _ :: value) => (bytes (trimPad type), some (bytes (trimPad value)))

/-- The relative names: a comma begins a new one, a plus adds to the one before it. -/
def rdnsFrom (first : List Token) : List (UInt8 × List Token) →
    List (List (List UInt8 × Option (List UInt8)))
  | [] => [[typeAndValue first]]
  | (sep, c) :: rest =>
    if sep = 0x2c then [typeAndValue first] :: rdnsFrom c rest
    else match rdnsFrom c rest with
      | [] => [[typeAndValue first]]
      | rdn :: rdns => (typeAndValue first :: rdn) :: rdns

/-- The sequence of relative names that the tokens denote. -/
def rdns (ts : List Token) : List (List (List UInt8 × Option (List UInt8))) :=
  rdnsFrom (components ts).1 (components ts).2

/-- What stands before the first equals sign does not end in an escaped space, and what stands
between an escaped first one and the next one that is not escaped does not begin with padding. -/
def Kept (c : List Token) : Prop :=
  match c.span (!isEq ·) with
  | (front, []) => (trimPad front).getLast? ≠ some (.char 0x20)
  | (front, .plain _ :: _) => (trimPad front).getLast? ≠ some (.char 0x20)
  | (_, _ :: after) => (∀ t ∈ (splitType after).1, isPad t = true) ∨
      ∀ t ∈ (splitType after).1.head?, isPad t = false

/-! ### Trimming tokens -/

theorem isPad_plain {b : UInt8} : isPad (.plain b) = isDnPadding b := rfl

theorem not_isDnPadding_backslash : isDnPadding backslash = false := by decide

/-- The front padding of a text is that of its tokens. -/
theorem dropWhile_text {x : List UInt8} (hx : ∀ b ∈ x.head?, isDnPadding b = false) :
    ∀ ts : List Token, (text ts ++ x).dropWhile isDnPadding = text (ts.dropWhile isPad) ++ x
  | [] => by
    cases x with
    | nil => rfl
    | cons b x =>
      have hb := hx b rfl
      exact List.dropWhile_cons_of_neg (by rw [hb]; exact Bool.false_ne_true)
  | .plain b :: ts => by
    by_cases hb : isDnPadding b = true
    · rw [List.dropWhile_cons_of_pos (show isPad (.plain b) = true from hb), ← dropWhile_text hx ts]
      exact List.dropWhile_cons_of_pos hb
    · rw [List.dropWhile_cons_of_neg (show ¬ isPad (.plain b) = true from hb)]
      exact List.dropWhile_cons_of_neg hb
  | .char c :: ts => by
    rw [List.dropWhile_cons_of_neg (by simp [isPad])]
    exact List.dropWhile_cons_of_neg (by decide)
  | .hex h l :: ts => by
    rw [List.dropWhile_cons_of_neg (by simp [isPad])]
    exact List.dropWhile_cons_of_neg (by decide)

theorem not_isDnPadding_of_hex {b : UInt8} (h : isHexDigit b = true) : isDnPadding b = false := by
  by_contra hpad
  rw [Bool.not_eq_false] at hpad
  simp only [isDnPadding, Bool.or_eq_true, decide_eq_true_eq] at hpad
  rcases hpad with ((rfl | rfl) | rfl) | rfl <;> exact absurd h (by decide)

/-- The only padding that may be escaped is the space. -/
theorem isDnPadding_of_special {c : UInt8} (h : special c = true) :
    isDnPadding c = true ↔ c = 0x20 := by
  have hall : ∀ c ∈ dnEscapable, (isDnPadding c = true ↔ c = 0x20) := by decide +kernel
  exact hall c (special_iff.1 h)

/-- The padding at the end of a text is that of its tokens, if these do not end in an escaped
space; otherwise the space of that escape goes too. -/
theorem rdropWhile_text {ts : List Token} (hok : ∀ t ∈ ts, t.Ok special) :
    (text ts).rdropWhile isDnPadding =
      if (ts.rdropWhile isPad).getLast? = some (.char 0x20) then
        text (ts.rdropWhile isPad).dropLast ++ [backslash]
      else text (ts.rdropWhile isPad) := by
  induction ts using List.reverseRecOn with
  | nil => simp
  | append_singleton ts t ih =>
    have hts := ih fun u hu => hok u (List.mem_append_left _ hu)
    have ht := hok t (by simp)
    rw [text_append]
    cases t with
    | plain b =>
      show (text ts ++ [b]).rdropWhile isDnPadding = _
      by_cases hb : isDnPadding b = true
      · rw [List.rdropWhile_concat_pos isDnPadding _ b hb,
          List.rdropWhile_concat_pos isPad _ (.plain b) hb, hts]
      · rw [List.rdropWhile_concat_neg _ _ _ hb,
          List.rdropWhile_concat_neg isPad _ (.plain b) hb, List.getLast?_concat, if_neg (by simp),
          text_append]
        rfl
    | char c =>
      have hsplit : text ts ++ text [.char c] = (text ts ++ [backslash]) ++ [c] := by
        simp [text, Token.text]
      rw [hsplit, List.rdropWhile_concat_neg isPad _ (.char c) (by simp [isPad]),
        List.getLast?_concat, List.dropLast_concat]
      by_cases hc : c = 0x20
      · subst hc
        rw [if_pos rfl, List.rdropWhile_concat_pos _ _ _ (by decide),
          List.rdropWhile_concat_neg _ _ _ (by decide)]
      · have hpad : ¬ isDnPadding c = true := fun h => hc ((isDnPadding_of_special ht).1 h)
        have hne : ¬ some (Token.char c) = some (.char 0x20) := by simp [hc]
        rw [List.rdropWhile_concat_neg _ _ _ hpad, if_neg hne, text_append, hsplit]
    | hex g l =>
      have hsplit : text ts ++ text [.hex g l] = (text ts ++ [backslash, g]) ++ [l] := by
        simp [text, Token.text]
      have hpad : ¬ isDnPadding l = true := by
        rw [not_isDnPadding_of_hex ht.2]
        exact Bool.false_ne_true
      rw [List.rdropWhile_concat_neg isPad _ (.hex g l) (by simp [isPad]), List.getLast?_concat,
        if_neg (by simp), text_append, hsplit, List.rdropWhile_concat_neg _ _ _ hpad]

/-- `trimUnescapedTrailingWhitespace` takes the padding that is not escaped. -/
theorem trimUnescaped_text {ts : List Token} (hok : ∀ t ∈ ts, t.Ok special) :
    trimUnescapedTrailingWhitespace (text ts) = text (ts.rdropWhile isPad) := by
  have hstop : ∀ (s : List UInt8) (b : UInt8), isDnPadding b = false →
      trimUnescapedTrailingWhitespace (s ++ [b]) = s ++ [b] := by
    intro s b hb
    unfold trimUnescapedTrailingWhitespace
    rw [List.reverse_append, List.reverse_singleton, List.singleton_append,
      trimUnescapedTrailingWhitespace.loop, if_neg (by rw [hb]; exact Bool.false_ne_true)]
    simp
  induction ts using List.reverseRecOn with
  | nil => rfl
  | append_singleton ts t ih =>
    have hts : ∀ u ∈ ts, u.Ok special := fun u hu => hok u (List.mem_append_left _ hu)
    have ht := hok t (by simp)
    rw [text_append]
    cases t with
    | plain b =>
      show trimUnescapedTrailingWhitespace (text ts ++ [b]) = _
      by_cases hb : isDnPadding b = true
      · have heven := even_backslashes hts
        unfold backslashes at heven
        rw [List.rdropWhile_concat_pos isPad _ (.plain b) hb, ← ih hts]
        unfold trimUnescapedTrailingWhitespace
        rw [List.reverse_append, List.reverse_singleton, List.singleton_append,
          trimUnescapedTrailingWhitespace.loop, if_pos hb, if_neg (by omega)]
      · rw [List.rdropWhile_concat_neg isPad _ (.plain b) hb, hstop _ b (Bool.eq_false_iff.2 hb),
          text_append]
        rfl
    | char c =>
      have hsplit : text ts ++ text [.char c] = (text ts ++ [backslash]) ++ [c] := by
        simp [text, Token.text]
      rw [hsplit, List.rdropWhile_concat_neg isPad _ (.char c) (by simp [isPad]), text_append,
        hsplit]
      by_cases hc : isDnPadding c = true
      · have heven := even_backslashes hts
        have hodd : (((text ts ++ [backslash]).reverse).takeWhile (· = backslash)).length % 2
          = 1 := by
          have hcount := backslashes_concat (text ts) backslash
          rw [if_pos rfl] at hcount
          unfold backslashes at hcount heven
          omega
        unfold trimUnescapedTrailingWhitespace
        rw [@List.reverse_append _ (text ts ++ [backslash]), List.reverse_singleton,
          List.singleton_append, trimUnescapedTrailingWhitespace.loop, if_pos hc, if_pos hodd]
        simp
      · exact hstop _ c (Bool.eq_false_iff.2 hc)
    | hex g l =>
      have hsplit : text ts ++ text [.hex g l] = (text ts ++ [backslash, g]) ++ [l] := by
        simp [text, Token.text]
      rw [hsplit, List.rdropWhile_concat_neg isPad _ (.hex g l) (by simp [isPad]), text_append,
        hsplit, hstop _ l (not_isDnPadding_of_hex ht.2)]

theorem ok_of_subset {ts us : List Token} (hok : ∀ t ∈ ts, t.Ok special) (h : ∀ u ∈ us, u ∈ ts) :
    ∀ u ∈ us, u.Ok special := fun u hu => hok u (h u hu)

theorem mem_of_mem_dropWhile {ts : List Token} {t : Token} (h : t ∈ ts.dropWhile isPad) : t ∈ ts :=
  (List.dropWhile_sublist _).subset h

theorem mem_of_mem_trimPad {ts : List Token} {t : Token} (h : t ∈ trimPad ts) : t ∈ ts :=
  mem_of_mem_dropWhile ((List.rdropWhile_prefix _ _).subset h)

theorem dropWhile_text_nil (ts : List Token) :
    (text ts).dropWhile isDnPadding = text (ts.dropWhile isPad) := by
  have h := dropWhile_text (x := []) (by simp) ts
  rwa [List.append_nil, List.append_nil] at h

theorem trimMatches_text {ts : List Token} (hok : ∀ t ∈ ts, t.Ok special) :
    trimMatches (text ts) =
      if (trimPad ts).getLast? = some (.char 0x20) then text (trimPad ts).dropLast ++ [backslash]
      else text (trimPad ts) := by
  unfold trimMatches
  rw [dropWhile_text_nil, rdropWhile_text (ok_of_subset hok fun _ => mem_of_mem_dropWhile)]
  rfl

theorem trimMatches_append_backslash (ts : List Token) :
    trimMatches (text ts ++ [backslash]) = text (ts.dropWhile isPad) ++ [backslash] := by
  unfold trimMatches
  rw [dropWhile_text (by simp [not_isDnPadding_backslash]),
    List.rdropWhile_concat_neg _ _ _ (by decide)]

theorem trimValue_text {ts : List Token} (hok : ∀ t ∈ ts, t.Ok special) :
    trimUnescapedTrailingWhitespace ((text ts).dropWhile isDnPadding) = text (trimPad ts) := by
  rw [dropWhile_text_nil, trimUnescaped_text (ok_of_subset hok fun _ => mem_of_mem_dropWhile)]
  rfl

/-! ### One component -/

theorem span_all {α : Type} {p : α → Bool} {l : List α} (h : ∀ a ∈ l, p a = true) :
    l.span p = (l, []) := by
  rw [List.span_eq_takeWhile_dropWhile, List.takeWhile_eq_self_iff.2 h,
    List.dropWhile_eq_nil_iff.2 h]

theorem span_append_cons {α : Type} {p : α → Bool} {l r : List α} {b : α}
    (h : ∀ a ∈ l, p a = true) (hb : p b = false) : (l ++ b :: r).span p = (l, b :: r) := by
  have hno : ¬ p b = true := by rw [hb]; exact Bool.false_ne_true
  rw [List.span_eq_takeWhile_dropWhile, List.takeWhile_append_of_pos h,
    List.dropWhile_append_of_pos h, List.takeWhile_cons_of_neg hno, List.dropWhile_cons_of_neg hno,
    List.append_nil]

/-- No equals sign is among the tokens. -/
def NoEq (ts : List Token) : Prop := ∀ t ∈ ts, isEq t = false

theorem NoEq.span {ts : List Token} (h : NoEq ts) : ts.span (!isEq ·) = (ts, []) :=
  span_all fun t ht => by rw [h t ht]; rfl

theorem NoEq.span_append {ts rest : List Token} (h : NoEq ts) {t : Token} (ht : isEq t = true) :
    (ts ++ t :: rest).span (!isEq ·) = (ts, t :: rest) :=
  span_append_cons (fun u hu => by rw [h u hu]; rfl) (by rw [ht]; rfl)

theorem NoEq.subset {ts us : List Token} (h : NoEq ts) (hsub : ∀ u ∈ us, u ∈ ts) : NoEq us :=
  fun u hu => h u (hsub u hu)

/-- A component has no equals sign, or a first one, which is escaped or not. -/
theorem eq_cases (c : List Token) : NoEq c ∨ ∃ front value, NoEq front ∧
    (c = front ++ .plain 0x3d :: value ∨ c = front ++ .char 0x3d :: value) := by
  have hfront : ∀ t ∈ c.takeWhile (!isEq ·), isEq t = false := by
    intro t ht
    simpa using List.mem_takeWhile_imp ht
  have hsplit : c.takeWhile (!isEq ·) ++ c.dropWhile (!isEq ·) = c :=
    List.takeWhile_append_dropWhile
  cases hrest : c.dropWhile (!isEq ·) with
  | nil =>
    rw [hrest, List.append_nil] at hsplit
    rw [hsplit] at hfront
    exact Or.inl hfront
  | cons t value =>
    have ht : isEq t = true := by
      have hhead := List.head?_dropWhile_not (!isEq ·) c
      rw [hrest] at hhead
      simpa using hhead
    rw [hrest] at hsplit
    refine Or.inr ⟨_, value, hfront, ?_⟩
    cases t with
    | plain b =>
      obtain rfl : b = 0x3d := by simpa [isEq] using ht
      exact Or.inl hsplit.symm
    | char b =>
      obtain rfl : b = 0x3d := by simpa [isEq] using ht
      exact Or.inr hsplit.symm
    | hex g l => cases ht

theorem NoEq.text {ts : List Token} (h : NoEq ts) (hok : ∀ t ∈ ts, t.Ok special) :
    ∀ b ∈ text ts, b ≠ 0x3d := by
  intro b hb
  obtain ⟨t, ht, hmem⟩ := List.mem_flatMap.1 hb
  have heq := h t ht
  have htok := hok t ht
  cases t with
  | plain b' =>
    rw [List.mem_singleton.1 hmem]
    simpa [isEq] using heq
  | char c =>
    simp only [Token.text, List.mem_cons, List.not_mem_nil, or_false] at hmem
    rcases hmem with rfl | rfl
    · decide
    · simpa [isEq] using heq
  | hex g l =>
    simp only [Token.text, List.mem_cons, List.not_mem_nil, or_false] at hmem
    rcases hmem with rfl | rfl | rfl
    · decide
    · rintro rfl
      exact absurd htok.1 (by decide)
    · rintro rfl
      exact absurd htok.2 (by decide)

/-- What the code leaves of the text before the first equals sign, with the sign. -/
def normKey (front : List Token) : List Token :=
  if (trimPad front).getLast? = some (.char 0x20) then (trimPad front).dropLast ++ [.char 0x3d]
  else trimPad front ++ [.plain 0x3d]

/-- What the code leaves of a component. -/
def normComponent (c : List Token) : List Token :=
  match c.span (!isEq ·) with
  | (front, []) => trimPad front
  | (front, .plain _ :: value) => normKey front ++ trimPad value
  | (front, eq :: value) => front.dropWhile isPad ++ eq :: trimPad value

/-- A component without an equals sign loses the space of an escape. -/
def Swallows (c : List Token) : Prop := NoEq c ∧ (trimPad c).getLast? = some (.char 0x20)

theorem normComponent_of_noEq {c : List Token} (h : NoEq c) : normComponent c = trimPad c := by
  unfold normComponent
  rw [h.span]

theorem normComponent_plain {front value : List Token} (h : NoEq front) :
    normComponent (front ++ .plain 0x3d :: value) = normKey front ++ trimPad value := by
  unfold normComponent
  rw [h.span_append (by decide)]

theorem normComponent_char {front value : List Token} (h : NoEq front) :
    normComponent (front ++ .char 0x3d :: value)
      = front.dropWhile isPad ++ .char 0x3d :: trimPad value := by
  unfold normComponent
  rw [h.span_append (by decide)]

theorem kept_of_noEq {c : List Token} (h : NoEq c) :
    Kept c ↔ (trimPad c).getLast? ≠ some (.char 0x20) := by
  unfold Kept
  rw [h.span]

theorem kept_plain {front value : List Token} (h : NoEq front) :
    Kept (front ++ .plain 0x3d :: value) ↔ (trimPad front).getLast? ≠ some (.char 0x20) := by
  unfold Kept
  rw [h.span_append (by decide)]

theorem kept_char {front value : List Token} (h : NoEq front) :
    Kept (front ++ .char 0x3d :: value) ↔ (∀ t ∈ (splitType value).1, isPad t = true) ∨
      ∀ t ∈ (splitType value).1.head?, isPad t = false := by
  unfold Kept
  rw [h.span_append (by decide)]

theorem text_getLast_char {ts : List Token} (h : ts.getLast? = some (.char 0x20)) :
    ts = ts.dropLast ++ [.char 0x20] := by
  have hne : ts ≠ [] := by
    rintro rfl
    cases h
  rw [List.getLast?_eq_some_getLast hne] at h
  rw [← Option.some.inj h, List.dropLast_append_getLast]

/-- **What `pushDnComponent` does to the tokens of a component.** -/
theorem pushDnComponent_text (out : List UInt8) {c : List Token} (hok : ∀ t ∈ c, t.Ok special) :
    (Swallows c → pushDnComponent out (text c)
      = out ++ text (trimPad c).dropLast ++ [backslash]) ∧
    (¬ Swallows c → pushDnComponent out (text c) = out ++ text (normComponent c)) := by
  unfold pushDnComponent
  rcases eq_cases c with hnone | ⟨front, value, hfront, rfl | rfl⟩
  · have hspan : (text c).span (· ≠ 0x3d) = (text c, []) :=
      span_all fun b hb => decide_eq_true (hnone.text hok b hb)
    rw [hspan, normComponent_of_noEq hnone]
    dsimp only
    rw [trimMatches_text hok]
    constructor
    · intro hswallows
      rw [if_pos hswallows.2, List.append_assoc]
    · intro hswallows
      rw [if_neg fun h => hswallows ⟨hnone, h⟩]
  · have hfrontOk := @ok_of_subset _ front hok (by simp +contextual)
    have hvalueOk := @ok_of_subset _ value hok (by simp +contextual)
    have hspan : (text (front ++ .plain 0x3d :: value)).span (· ≠ 0x3d)
        = (text front, 0x3d :: text value) := by
      rw [text_append]
      exact span_append_cons (fun b hb => decide_eq_true (hfront.text hfrontOk b hb)) (by decide)
    have hsome : ¬ Swallows (front ++ .plain 0x3d :: value) :=
      fun h => absurd (h.1 (.plain 0x3d) (by simp)) (by decide)
    refine ⟨fun h => absurd h hsome, fun _ => ?_⟩
    rw [hspan, normComponent_plain hfront]
    dsimp only
    rw [trimMatches_text hfrontOk, trimValue_text hvalueOk, normKey]
    split_ifs
    · simp [text, Token.text]
    · simp [text, Token.text]
  · have hfrontOk := @ok_of_subset _ front hok (by simp +contextual)
    have hvalueOk := @ok_of_subset _ value hok (by simp +contextual)
    have hspan : (text (front ++ .char 0x3d :: value)).span (· ≠ 0x3d)
        = (text front ++ [backslash], 0x3d :: text value) := by
      have htext : text (front ++ .char 0x3d :: value)
          = (text front ++ [backslash]) ++ 0x3d :: text value := by
        simp [text, Token.text]
      rw [htext]
      refine span_append_cons (fun b hb => decide_eq_true ?_) (by decide)
      rcases List.mem_append.1 hb with hb | hb
      · exact hfront.text hfrontOk b hb
      · rw [List.mem_singleton.1 hb]
        decide
    have hsome : ¬ Swallows (front ++ .char 0x3d :: value) :=
      fun h => absurd (h.1 (.char 0x3d) (by simp)) (by decide)
    refine ⟨fun h => absurd h hsome, fun _ => ?_⟩
    rw [hspan, normComponent_char hfront]
    dsimp only
    rw [trimMatches_append_backslash, trimValue_text hvalueOk]
    simp [text, Token.text]

/-! ### The loop -/

/-- Put the components together, each after its separator. -/
def joinTokens (p : List Token × List (UInt8 × List Token)) : List Token :=
  p.1 ++ p.2.flatMap fun q => .plain q.1 :: q.2

/-- The bytes of the components as `f` writes them, each after its separator. -/
def render (f : List Token → List UInt8) (p : List Token × List (UInt8 × List Token)) :
    List UInt8 :=
  f p.1 ++ p.2.flatMap fun q => q.1 :: f q.2

theorem isSep_eq_true {t : Token} (h : isSep t = true) :
    t = .plain t.byte ∧ (t.byte = 0x2c ∨ t.byte = 0x2b) := by
  cases t with
  | plain b =>
    have hb : b = 0x2c ∨ b = 0x2b := by simpa [isSep] using h
    exact ⟨rfl, hb⟩
  | char c => cases h
  | hex g l => cases h

theorem components_cons_sep {t : Token} (ht : isSep t = true) (ts : List Token) :
    components (t :: ts) = ([], (t.byte, (components ts).1) :: (components ts).2) := by
  rw [components, if_pos ht]

theorem components_cons {t : Token} (ht : isSep t = false) (ts : List Token) :
    components (t :: ts) = (t :: (components ts).1, (components ts).2) := by
  rw [components, if_neg (by rw [ht]; exact Bool.false_ne_true)]

theorem joinTokens_components : ∀ ts : List Token, joinTokens (components ts) = ts
  | [] => rfl
  | t :: ts => by
    have ih := joinTokens_components ts
    by_cases ht : isSep t = true
    · rw [components_cons_sep ht]
      show [] ++ (.plain t.byte :: (components ts).1 ++ _) = _
      rw [List.nil_append, ← (isSep_eq_true ht).1, List.cons_append]
      congr 1
    · rw [components_cons (Bool.eq_false_iff.2 ht)]
      show t :: joinTokens (components ts) = _
      rw [ih]

/-- The components have no separators, and what is between them are separators. -/
theorem components_spec : ∀ ts : List Token,
    (∀ t ∈ (components ts).1, t ∈ ts ∧ isSep t = false) ∧
      ∀ q ∈ (components ts).2, (q.1 = 0x2c ∨ q.1 = 0x2b) ∧ ∀ t ∈ q.2, t ∈ ts ∧ isSep t = false
  | [] => by simp [components]
  | t :: ts => by
    obtain ⟨hfirst, hrest⟩ := components_spec ts
    have hfirst' : ∀ u ∈ (components ts).1, u ∈ t :: ts ∧ isSep u = false := fun u hu =>
      ⟨List.mem_cons_of_mem _ (hfirst u hu).1, (hfirst u hu).2⟩
    have hrest' : ∀ q ∈ (components ts).2, (q.1 = 0x2c ∨ q.1 = 0x2b) ∧
        ∀ u ∈ q.2, u ∈ t :: ts ∧ isSep u = false := fun q hq =>
      ⟨(hrest q hq).1, fun u hu =>
        ⟨List.mem_cons_of_mem _ ((hrest q hq).2 u hu).1, ((hrest q hq).2 u hu).2⟩⟩
    by_cases ht : isSep t = true
    · rw [components_cons_sep ht]
      refine ⟨by simp, fun q hq => ?_⟩
      rcases List.mem_cons.1 hq with rfl | hq
      · exact ⟨(isSep_eq_true ht).2, hfirst'⟩
      · exact hrest' q hq
    · rw [components_cons (Bool.eq_false_iff.2 ht)]
      refine ⟨fun u hu => ?_, hrest'⟩
      rcases List.mem_cons.1 hu with rfl | hu
      · exact ⟨List.mem_cons_self .., Bool.eq_false_iff.2 ht⟩
      · exact hfirst' u hu

theorem pushDnComponent_append (out component : List UInt8) :
    pushDnComponent out component = out ++ pushDnComponent [] component := by
  unfold pushDnComponent
  split <;> simp

/-- The loop keeps a token that is no separator in the component. -/
theorem loop_token {t : Token} (ht : t.Ok special) (hsep : isSep t = false)
    (out component x : List UInt8) :
    normalizeDnSpacing.loop out component false (t.text ++ x)
      = normalizeDnSpacing.loop out (component ++ t.text) false x := by
  have hplain : ∀ (b : UInt8) (comp : List UInt8), b ≠ backslash → ¬ (b = 0x2c ∨ b = 0x2b) →
      normalizeDnSpacing.loop out comp false (b :: x)
        = normalizeDnSpacing.loop out (comp ++ [b]) false x := by
    intro b comp hb hno
    conv_lhs => unfold normalizeDnSpacing.loop
    rw [if_neg Bool.false_ne_true, if_neg hb, if_neg hno]
  have hescape : ∀ (b : UInt8) (rest : List UInt8),
      normalizeDnSpacing.loop out component false (backslash :: b :: rest)
        = normalizeDnSpacing.loop out (component ++ [backslash] ++ [b]) false rest := by
    intro b rest
    conv_lhs => unfold normalizeDnSpacing.loop
    rw [if_neg Bool.false_ne_true, if_pos rfl]
    conv_lhs => unfold normalizeDnSpacing.loop
    rw [if_pos rfl]
  cases t with
  | plain b =>
    refine hplain b component ht ?_
    rw [← Bool.not_eq_true] at hsep
    simpa [isSep] using hsep
  | char c =>
    show normalizeDnSpacing.loop out component false (backslash :: c :: x) = _
    rw [hescape, List.append_assoc]
    rfl
  | hex g l =>
    show normalizeDnSpacing.loop out component false (backslash :: g :: l :: x) = _
    have hl : l ≠ backslash := by
      rintro rfl
      exact absurd ht.2 (by decide)
    have hno : ¬ (l = 0x2c ∨ l = 0x2b) := by
      rintro (rfl | rfl)
      · exact absurd ht.2 (by decide)
      · exact absurd ht.2 (by decide)
    rw [hescape, hplain l _ hl hno]
    simp [Token.text]

theorem loop_components : ∀ {ts : List Token}, (∀ t ∈ ts, t.Ok special) →
    ∀ (out : List UInt8) (comp : List Token),
      normalizeDnSpacing.loop out (text comp) false (text ts) =
        out ++ render (fun c => pushDnComponent [] (text c))
          (comp ++ (components ts).1, (components ts).2)
  | [], _, out, comp => by
    show normalizeDnSpacing.loop out (text comp) false [] = _
    unfold normalizeDnSpacing.loop
    rw [pushDnComponent_append]
    simp [render, components]
  | t :: ts, hok, out, comp => by
    have ht := hok t (by simp)
    have ih := fun out comp => @loop_components ts
      (fun u hu => hok u (List.mem_cons_of_mem _ hu)) out comp
    rw [text_cons]
    by_cases hsep : isSep t = true
    · obtain ⟨heq, hbyte⟩ := isSep_eq_true hsep
      have hb : t.byte ≠ backslash := by
        rcases hbyte with h | h <;> rw [h] <;> decide
      have htext : t.text ++ text ts = t.byte :: text ts := by
        rw [heq]
        rfl
      have hih := ih (out ++ pushDnComponent [] (text comp) ++ [t.byte]) []
      rw [htext]
      conv_lhs => unfold normalizeDnSpacing.loop
      rw [if_neg Bool.false_ne_true, if_neg hb, if_pos hbyte, pushDnComponent_append]
      rw [components_cons_sep hsep]
      refine hih.trans ?_
      simp [render]
    · have hsep' := Bool.eq_false_iff.2 hsep
      have hih := ih out (comp ++ [t])
      have htext : text comp ++ t.text = text (comp ++ [t]) := by simp
      rw [loop_token ht hsep', htext, hih, components_cons hsep']
      simp

/-- **The code normalizes a name component by component.** -/
theorem normalizeDnSpacing_text {ts : List Token} (hok : ∀ t ∈ ts, t.Ok special) :
    normalizeDnSpacing (text ts) =
      render (fun c => pushDnComponent [] (text c)) (components ts) := by
  have h := loop_components hok [] []
  rwa [List.nil_append, List.nil_append] at h

end Ostrich.Common.GrpcDn
