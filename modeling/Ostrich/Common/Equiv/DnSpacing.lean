import Ostrich.Common.Equiv.DnTokens

/-!
# What `normalizeDnSpacing` keeps

The code cuts a component at its first `=`, escaped or not, and trims what stands before it (or all
of it, if there is none) without a look at the backslashes.  So it keeps the meaning of a name if
and only if every component is `Kept` (`preserves_iff`): what stands before the first `=` does not
end in an escaped space, and if that `=` is escaped, what follows it does not begin with padding.

A component that ends in an escaped space and has no `=` swallows the separator after it: what is
left of its escape is a backslash, and the separator becomes the escaped character.  The number of
separators tells whether that happens (`separators_of_render`).
-/

namespace Ostrich.Common.GrpcDn

open Escaped

/-- The name is accepted, denotes the same sequence with the same escapes, and is normal. -/
def Preserves (dn : List UInt8) : Prop :=
  validateDnEscapes dn = .ok () → ∀ ts, Reads special dn ts →
    validateDnEscapes (normalizeDnSpacing dn) = .ok () ∧
      normalizeDnSpacing (normalizeDnSpacing dn) = normalizeDnSpacing dn ∧
      ∃ ts', Reads special (normalizeDnSpacing dn) ts' ∧ rdns ts' = rdns ts ∧
        ts'.filter Token.IsEscape = ts.filter Token.IsEscape

/-! ### Padding -/

theorem rdropWhile_cons (t : Token) (ts : List Token) : (t :: ts).rdropWhile isPad =
    if ts.rdropWhile isPad = [] then (if isPad t then [] else [t])
    else t :: ts.rdropWhile isPad := by
  unfold List.rdropWhile
  rw [List.reverse_cons, List.dropWhile_append]
  by_cases hnil : ts.reverse.dropWhile isPad = []
  · rw [if_pos (by simp [hnil]), if_pos (by simp [hnil])]
    by_cases ht : isPad t = true
    · rw [if_pos ht, List.dropWhile_cons_of_pos ht]
      rfl
    · rw [if_neg ht, List.dropWhile_cons_of_neg ht]
      rfl
  · rw [if_neg (by simpa using hnil), if_neg (by simpa using hnil)]
    simp

theorem rdropWhile_eq_nil {ts : List Token} : ts.rdropWhile isPad = [] ↔
    ∀ t ∈ ts, isPad t = true := List.rdropWhile_eq_nil_iff

/-- Padding goes from both sides of a token that is none. -/
theorem trimPad_append_cons {front rest : List Token} {t : Token} (ht : isPad t = false) :
    trimPad (front ++ t :: rest) = front.dropWhile isPad ++ t :: rest.rdropWhile isPad := by
  have hno : ¬ isPad t = true := by rw [ht]; exact Bool.false_ne_true
  have hright : ∀ front : List Token, (front ++ t :: rest).rdropWhile isPad
      = front ++ t :: rest.rdropWhile isPad := by
    intro front
    induction front with
    | nil =>
      rw [List.nil_append, List.nil_append, rdropWhile_cons, if_neg hno]
      split_ifs with hnil
      · rw [hnil]
      · rfl
    | cons u front ih => rw [List.cons_append, rdropWhile_cons, ih, if_neg (by simp),
        List.cons_append]
  have hleft : ∀ front : List Token, (front ++ t :: rest).dropWhile isPad
      = front.dropWhile isPad ++ t :: rest := by
    intro front
    induction front with
    | nil => exact List.dropWhile_cons_of_neg hno
    | cons u front ih =>
      by_cases hu : isPad u = true
      · rw [List.cons_append, List.dropWhile_cons_of_pos hu, List.dropWhile_cons_of_pos hu, ih]
      · rw [List.cons_append, List.dropWhile_cons_of_neg hu, List.dropWhile_cons_of_neg hu,
          List.cons_append]
  unfold trimPad
  rw [hleft, hright]

theorem dropWhile_trimPad (ts : List Token) : (trimPad ts).dropWhile isPad = trimPad ts := by
  cases hts : ts.dropWhile isPad with
  | nil =>
    unfold trimPad
    rw [hts]
    rfl
  | cons t rest =>
    have ht : ¬ isPad t = true := by
      have hhead := List.head?_dropWhile_not isPad ts
      rw [hts] at hhead
      simpa using hhead
    have htrim : trimPad ts = t :: rest.rdropWhile isPad := by
      unfold trimPad
      rw [hts, rdropWhile_cons, if_neg ht]
      split_ifs with hnil
      · rw [hnil]
      · rfl
    rw [htrim, List.dropWhile_cons_of_neg ht]

theorem rdropWhile_trimPad (ts : List Token) : (trimPad ts).rdropWhile isPad = trimPad ts :=
  List.rdropWhile_idempotent _ _

@[simp] theorem trimPad_trimPad (ts : List Token) : trimPad (trimPad ts) = trimPad ts := by
  show ((trimPad ts).dropWhile isPad).rdropWhile isPad = _
  rw [dropWhile_trimPad, rdropWhile_trimPad]

theorem dropWhile_dropWhile (ts : List Token) :
    (ts.dropWhile isPad).dropWhile isPad = ts.dropWhile isPad := List.dropWhile_idempotent _ _

theorem trimPad_rdropWhile (ts : List Token) : trimPad (ts.rdropWhile isPad) = trimPad ts := by
  induction ts with
  | nil => rfl
  | cons t ts ih =>
    have hcons : ∀ l : List Token, isPad t = true → trimPad (t :: l) = trimPad l := by
      intro l ht
      unfold trimPad
      rw [List.dropWhile_cons_of_pos ht]
    rw [rdropWhile_cons]
    by_cases hnil : ts.rdropWhile isPad = []
    · rw [if_pos hnil]
      rw [hnil] at ih
      by_cases ht : isPad t = true
      · rw [if_pos ht, hcons ts ht, ih]
      · have hts := @trimPad_append_cons [] ts _ (Bool.eq_false_iff.2 ht)
        have ht' := @trimPad_append_cons [] [] _ (Bool.eq_false_iff.2 ht)
        rw [List.nil_append, hnil] at hts
        rw [if_neg ht, hts]
        exact ht'
    · rw [if_neg hnil]
      by_cases ht : isPad t = true
      · rw [hcons _ ht, hcons ts ht, ih]
      · have hts := @trimPad_append_cons [] ts _ (Bool.eq_false_iff.2 ht)
        have hrd := @trimPad_append_cons [] (ts.rdropWhile isPad) _
          (Bool.eq_false_iff.2 ht)
        rw [List.nil_append] at hts hrd
        rw [hts, hrd, List.rdropWhile_idempotent]

theorem length_trimPad_le : ∀ ts : List Token, (trimPad ts).length ≤ (ts.rdropWhile isPad).length
  | [] => Nat.le_refl _
  | t :: ts => by
    by_cases ht : isPad t = true
    · have hcons : trimPad (t :: ts) = trimPad ts := by
        unfold trimPad
        rw [List.dropWhile_cons_of_pos ht]
      rw [hcons, rdropWhile_cons, if_pos ht]
      split_ifs with hnil
      · rw [← trimPad_rdropWhile, hnil]
        exact Nat.le_refl _
      · exact (length_trimPad_le ts).trans (Nat.le_succ _)
    · unfold trimPad
      rw [List.dropWhile_cons_of_neg ht]

/-- Taking the padding in front makes no difference only if there is none, or nothing else. -/
theorem pad_of_length_eq {ts : List Token}
    (h : (ts.rdropWhile isPad).length = (trimPad ts).length) :
    (∀ t ∈ ts, isPad t = true) ∨ ∀ t ∈ ts.head?, isPad t = false := by
  cases ts with
  | nil => exact Or.inl (by simp)
  | cons t ts =>
    by_cases ht : isPad t = true
    · left
      by_contra hall
      have hcons : trimPad (t :: ts) = trimPad ts := by
        unfold trimPad
        rw [List.dropWhile_cons_of_pos ht]
      have hne : ts.rdropWhile isPad ≠ [] := by
        intro hnil
        apply hall
        intro u hu
        rcases List.mem_cons.1 hu with rfl | hu
        · exact ht
        · exact rdropWhile_eq_nil.1 hnil u hu
      rw [hcons, rdropWhile_cons, if_neg hne, List.length_cons] at h
      have hle := length_trimPad_le ts
      omega
    · right
      intro u hu
      obtain rfl : t = u := Option.some.inj hu
      exact Bool.eq_false_iff.2 ht

theorem trimPad_eq_of_pad {ts : List Token}
    (h : (∀ t ∈ ts, isPad t = true) ∨ ∀ t ∈ ts.head?, isPad t = false) :
    trimPad ts = ts.rdropWhile isPad := by
  rcases h with hall | hhead
  · rw [← trimPad_rdropWhile, rdropWhile_eq_nil.2 hall]
    rfl
  · cases ts with
    | nil => rfl
    | cons t ts =>
      have ht := hhead t rfl
      unfold trimPad
      rw [List.dropWhile_cons_of_neg (by rw [ht]; exact Bool.false_ne_true)]

theorem drops_trimPad (ts : List Token) : Drops (fun t => isPad t = true) ts (trimPad ts) := by
  have hfront : Drops (fun t => isPad t = true) ts (ts.dropWhile isPad) :=
    Drops.dropWhile isPad (fun _ h => h) ts
  refine hfront.trans ?_
  have hsplit : (ts.dropWhile isPad).rdropWhile isPad ++ (ts.dropWhile isPad).rtakeWhile isPad
      = ts.dropWhile isPad := List.rdropWhile_append_rtakeWhile
  have hdrops : Drops (fun t => isPad t = true)
      ((ts.dropWhile isPad).rdropWhile isPad ++ (ts.dropWhile isPad).rtakeWhile isPad)
      ((ts.dropWhile isPad).rdropWhile isPad ++ []) :=
    Drops.rfl.append (Drops.all fun t ht => List.mem_rtakeWhile_imp ht)
  rwa [hsplit, List.append_nil] at hdrops

/-! ### Components -/

/-- The unescaped equals sign. -/
def eqSign : Token := .plain 0x3d

theorem NoEq.eqSign_not_mem {ts : List Token} (h : NoEq ts) : eqSign ∉ ts := fun hmem =>
  absurd (h _ hmem) (by decide)

theorem splitType_of_not_mem {ts : List Token} (h : eqSign ∉ ts) : splitType ts = (ts, []) :=
  span_all fun t ht => decide_eq_true fun heq => h (by rw [← (show t = eqSign from heq)]; exact ht)

theorem splitType_append {ts : List Token} (h : eqSign ∉ ts) (rest : List Token) :
    splitType (ts ++ eqSign :: rest) = (ts, eqSign :: rest) :=
  span_append_cons (fun t ht => decide_eq_true fun heq => h (by
    rw [← (show t = eqSign from heq)]
    exact ht)) (by decide)

theorem typeAndValue_of_not_mem {ts : List Token} (h : eqSign ∉ ts) :
    typeAndValue ts = (bytes (trimPad ts), none) := by
  unfold typeAndValue
  rw [splitType_of_not_mem h]

theorem typeAndValue_append {type : List Token} (h : eqSign ∉ type) (value : List Token) :
    typeAndValue (type ++ eqSign :: value)
      = (bytes (trimPad type), some (bytes (trimPad value))) := by
  unfold typeAndValue
  rw [splitType_append h]

/-- A list has no unescaped equals sign, or a first one. -/
theorem eqSign_cases (ts : List Token) : eqSign ∉ ts ∨ ∃ type value, eqSign ∉ type ∧
    ts = type ++ eqSign :: value := by
  by_cases h : eqSign ∈ ts
  · right
    obtain ⟨type, value, hts, hnot⟩ := List.eq_append_cons_of_mem h
    exact ⟨type, value, hnot, hts⟩
  · exact Or.inl h

theorem length_bytes (ts : List Token) : (bytes ts).length = ts.length := List.length_map _

/-- With an escaped equals sign first, the meaning is kept where `Kept` says so. -/
theorem typeAndValue_char_iff {front value : List Token} (hfront : NoEq front) :
    typeAndValue (normComponent (front ++ .char 0x3d :: value))
      = typeAndValue (front ++ .char 0x3d :: value) ↔ Kept (front ++ .char 0x3d :: value) := by
  have hchar : isPad (.char 0x3d) = false := rfl
  have hdrop : eqSign ∉ front.dropWhile isPad := fun h =>
    hfront.eqSign_not_mem (mem_of_mem_dropWhile h)
  have hne : eqSign ≠ .char 0x3d := by decide
  -- the type before and after, if `type` are the tokens up to the next equals sign
  have htype : ∀ type : List Token,
      bytes (trimPad (front.dropWhile isPad ++ .char 0x3d :: trimPad type))
        = bytes (trimPad (front ++ .char 0x3d :: type)) ↔
      (∀ t ∈ type, isPad t = true) ∨ ∀ t ∈ type.head?, isPad t = false := by
    intro type
    rw [trimPad_append_cons hchar, trimPad_append_cons hchar, dropWhile_dropWhile,
      rdropWhile_trimPad]
    constructor
    · intro h
      apply pad_of_length_eq
      have hlength := congrArg List.length h
      rw [length_bytes, length_bytes, List.length_append, List.length_append, List.length_cons,
        List.length_cons] at hlength
      omega
    · intro h
      rw [trimPad_eq_of_pad h]
  rw [normComponent_char hfront, kept_char hfront]
  rcases eqSign_cases value with hnone | ⟨type, rest, hnot, rfl⟩
  · have hold : eqSign ∉ front ++ .char 0x3d :: value := by
      simp [hfront.eqSign_not_mem, hnone, hne]
    have hnew : eqSign ∉ front.dropWhile isPad ++ .char 0x3d :: trimPad value := by
      simp only [List.mem_append, List.mem_cons, not_or]
      exact ⟨hdrop, hne, fun h => hnone (mem_of_mem_trimPad h)⟩
    rw [typeAndValue_of_not_mem hold, typeAndValue_of_not_mem hnew, splitType_of_not_mem hnone,
      ← htype value, Prod.mk.injEq]
    exact and_iff_left rfl
  · have hold : eqSign ∉ front ++ .char 0x3d :: type := by
      simp [hfront.eqSign_not_mem, hnot, hne]
    have hnew : eqSign ∉ front.dropWhile isPad ++ .char 0x3d :: type.dropWhile isPad := by
      simp only [List.mem_append, List.mem_cons, not_or]
      exact ⟨hdrop, hne, fun h => hnot (mem_of_mem_dropWhile h)⟩
    have hsplit : front ++ .char 0x3d :: (type ++ eqSign :: rest)
        = (front ++ .char 0x3d :: type) ++ eqSign :: rest := by simp
    have hsplit' : front.dropWhile isPad ++ .char 0x3d :: trimPad (type ++ eqSign :: rest)
        = (front.dropWhile isPad ++ .char 0x3d :: type.dropWhile isPad)
          ++ eqSign :: rest.rdropWhile isPad := by
      rw [trimPad_append_cons (by decide)]
      simp
    have htrim : trimPad (front.dropWhile isPad ++ .char 0x3d :: type.dropWhile isPad)
        = trimPad (front.dropWhile isPad ++ .char 0x3d :: trimPad type) := by
      rw [trimPad_append_cons hchar, trimPad_append_cons hchar, rdropWhile_trimPad]
      rfl
    rw [hsplit, hsplit', typeAndValue_append hold, typeAndValue_append hnew, trimPad_rdropWhile,
      splitType_append hnot, ← htype type, htrim, Prod.mk.injEq]
    exact and_iff_left rfl

/-- With an unescaped equals sign first, likewise. -/
theorem typeAndValue_plain_iff {front value : List Token} (hfront : NoEq front) :
    typeAndValue (normComponent (front ++ .plain 0x3d :: value))
      = typeAndValue (front ++ .plain 0x3d :: value) ↔ Kept (front ++ .plain 0x3d :: value) := by
  rw [normComponent_plain hfront, kept_plain hfront]
  have hold : typeAndValue (front ++ .plain 0x3d :: value)
      = (bytes (trimPad front), some (bytes (trimPad value))) :=
    typeAndValue_append hfront.eqSign_not_mem value
  have hno : eqSign ∉ trimPad front := fun h => hfront.eqSign_not_mem (mem_of_mem_trimPad h)
  rw [hold]
  by_cases hspace : (trimPad front).getLast? = some (.char 0x20)
  · refine iff_of_false ?_ (not_not.2 hspace)
    have hfrontEq := text_getLast_char hspace
    set d := (trimPad front).dropLast with hd
    have hdrop : d.dropWhile isPad = d := by
      have htrim := dropWhile_trimPad front
      rw [hfrontEq] at htrim
      cases hcase : d with
      | nil => rfl
      | cons t rest =>
        by_cases ht : isPad t = true
        · rw [hcase, List.cons_append, List.dropWhile_cons_of_pos ht] at htrim
          have hlength := congrArg List.length htrim
          have hle := (List.dropWhile_sublist isPad (l := rest ++ [.char 0x20])).length_le
          rw [List.length_cons] at hlength
          omega
        · exact List.dropWhile_cons_of_neg ht
    have hdNo : eqSign ∉ d := fun h => hno (List.dropLast_subset _ h)
    rw [normKey, if_pos hspace, ← hd, List.append_assoc, List.singleton_append]
    intro h
    -- the type is now longer by what was the value, or ends in the escaped equals sign
    have htype : ∃ after, (typeAndValue (d ++ .char 0x3d :: trimPad value)).1
        = bytes d ++ 0x3d :: after := by
      rcases eqSign_cases (trimPad value) with hnone | ⟨type, rest, hnot, hvalue⟩
      · refine ⟨bytes ((trimPad value).rdropWhile isPad), ?_⟩
        have hnot : eqSign ∉ d ++ .char 0x3d :: trimPad value := by
          simp only [List.mem_append, List.mem_cons, not_or]
          exact ⟨hdNo, by decide, hnone⟩
        rw [typeAndValue_of_not_mem hnot, trimPad_append_cons rfl, hdrop, bytes_append]
        rfl
      · refine ⟨bytes (type.rdropWhile isPad), ?_⟩
        have hnot' : eqSign ∉ d ++ .char 0x3d :: type := by
          simp only [List.mem_append, List.mem_cons, not_or]
          exact ⟨hdNo, by decide, hnot⟩
        have hsplit : d ++ .char 0x3d :: (type ++ eqSign :: rest)
            = (d ++ .char 0x3d :: type) ++ eqSign :: rest := by simp
        rw [hvalue, hsplit, typeAndValue_append hnot', trimPad_append_cons rfl, hdrop,
          bytes_append]
        rfl
    obtain ⟨after, htype⟩ := htype
    have hfst := congrArg Prod.fst h
    rw [htype, hfrontEq, bytes_append] at hfst
    have hcancel := List.append_cancel_left hfst
    exact absurd (List.cons.inj hcancel).1 (by decide)
  · refine iff_of_true ?_ hspace
    have hsplit : normKey front ++ trimPad value = trimPad front ++ eqSign :: trimPad value := by
      rw [normKey, if_neg hspace, List.append_assoc]
      rfl
    rw [hsplit, typeAndValue_append hno, trimPad_trimPad, trimPad_trimPad]

/-- **A component that swallows nothing keeps its meaning if and only if it is `Kept`.** -/
theorem typeAndValue_normComponent_iff {c : List Token} (h : ¬ Swallows c) :
    typeAndValue (normComponent c) = typeAndValue c ↔ Kept c := by
  rcases eq_cases c with hnone | ⟨front, value, hfront, rfl | rfl⟩
  · have hkept : Kept c := (kept_of_noEq hnone).2 fun hspace => h ⟨hnone, hspace⟩
    have hno : eqSign ∉ trimPad c := fun hmem => hnone.eqSign_not_mem (mem_of_mem_trimPad hmem)
    rw [normComponent_of_noEq hnone, typeAndValue_of_not_mem hno, trimPad_trimPad,
      typeAndValue_of_not_mem hnone.eqSign_not_mem]
    exact iff_of_true rfl hkept
  · exact typeAndValue_plain_iff hfront
  · exact typeAndValue_char_iff hfront

theorem not_swallows_of_kept {c : List Token} (h : Kept c) : ¬ Swallows c := fun hswallows =>
  (kept_of_noEq hswallows.1).1 h hswallows.2

theorem mem_normComponent {c : List Token} {t : Token} (h : t ∈ normComponent c) :
    t ∈ c ∨ t = .char 0x3d := by
  rcases eq_cases c with hnone | ⟨front, value, hfront, rfl | rfl⟩
  · rw [normComponent_of_noEq hnone] at h
    exact Or.inl (mem_of_mem_trimPad h)
  · rw [normComponent_plain hfront, normKey] at h
    rcases List.mem_append.1 h with h | h
    · split_ifs at h
      · rcases List.mem_append.1 h with h | h
        · exact Or.inl (List.mem_append_left _ (mem_of_mem_trimPad (List.dropLast_subset _ h)))
        · exact Or.inr (List.mem_singleton.1 h)
      · rcases List.mem_append.1 h with h | h
        · exact Or.inl (List.mem_append_left _ (mem_of_mem_trimPad h))
        · exact Or.inl (by simp [List.mem_singleton.1 h])
    · exact Or.inl (by simp [mem_of_mem_trimPad h])
  · rw [normComponent_char hfront] at h
    rcases List.mem_append.1 h with h | h
    · exact Or.inl (List.mem_append_left _ (mem_of_mem_dropWhile h))
    · rcases List.mem_cons.1 h with h | h
      · exact Or.inr h
      · exact Or.inl (by simp [mem_of_mem_trimPad h])

theorem ok_normComponent {c : List Token} (hok : ∀ t ∈ c, t.Ok special) :
    ∀ t ∈ normComponent c, t.Ok special := by
  intro t ht
  rcases mem_normComponent ht with h | rfl
  · exact hok t h
  · show special 0x3d = true
    decide

theorem isSep_normComponent {c : List Token} (h : ∀ t ∈ c, isSep t = false) :
    ∀ t ∈ normComponent c, isSep t = false := by
  intro t ht
  rcases mem_normComponent ht with h' | rfl
  · exact h t h'
  · rfl

theorem normKey_of_kept {front : List Token}
    (h : (trimPad front).getLast? ≠ some (.char 0x20)) : normKey front
      = trimPad front ++ [.plain 0x3d] := if_neg h

/-- A kept component loses padding only. -/
theorem drops_normComponent {c : List Token} (h : Kept c) :
    Drops (fun t => isPad t = true) c (normComponent c) := by
  rcases eq_cases c with hnone | ⟨front, value, hfront, rfl | rfl⟩
  · rw [normComponent_of_noEq hnone]
    exact drops_trimPad c
  · rw [normComponent_plain hfront, normKey_of_kept ((kept_plain hfront).1 h), List.append_assoc]
    exact (drops_trimPad front).append (.keep (drops_trimPad value))
  · rw [normComponent_char hfront]
    exact (Drops.dropWhile isPad (fun _ h => h) front).append (.keep (drops_trimPad value))

/-- A kept component is normal after one time. -/
theorem normComponent_normComponent {c : List Token} (h : Kept c) :
    normComponent (normComponent c) = normComponent c ∧ ¬ Swallows (normComponent c) := by
  rcases eq_cases c with hnone | ⟨front, value, hfront, rfl | rfl⟩
  · have hno : NoEq (trimPad c) := hnone.subset fun _ => mem_of_mem_trimPad
    rw [normComponent_of_noEq hnone, normComponent_of_noEq hno, trimPad_trimPad]
    refine ⟨rfl, fun hswallows => (kept_of_noEq hnone).1 h ?_⟩
    have hlast := hswallows.2
    rwa [trimPad_trimPad] at hlast
  · have hlast := (kept_plain hfront).1 h
    have hno : NoEq (trimPad front) := hfront.subset fun _ => mem_of_mem_trimPad
    have hnorm : normComponent (front ++ .plain 0x3d :: value)
        = trimPad front ++ .plain 0x3d :: trimPad value := by
      rw [normComponent_plain hfront, normKey_of_kept hlast, List.append_assoc]
      rfl
    rw [hnorm, normComponent_plain hno, normKey_of_kept (by rwa [trimPad_trimPad]), trimPad_trimPad,
      trimPad_trimPad, List.append_assoc]
    exact ⟨rfl, fun hswallows => absurd (hswallows.1 (.plain 0x3d) (by simp)) (by decide)⟩
  · have hno : NoEq (front.dropWhile isPad) := hfront.subset fun _ => mem_of_mem_dropWhile
    rw [normComponent_char hfront, normComponent_char hno, trimPad_trimPad, dropWhile_dropWhile]
    exact ⟨rfl, fun hswallows => absurd (hswallows.1 (.char 0x3d) (by simp)) (by decide)⟩

/-- Where only padding went, nothing follows that may not. -/
theorem isChain_normComponent {c : List Token} (h : Kept c) (hchain : c.IsChain MayFollow) :
    (normComponent c).IsChain MayFollow := by
  have htrim : ∀ ts : List Token, ts.IsChain MayFollow → (trimPad ts).IsChain MayFollow := by
    intro ts hts
    have hdrop : (ts.dropWhile isPad).IsChain MayFollow := hts.suffix (List.dropWhile_suffix _)
    obtain ⟨pad, hpad⟩ := List.rdropWhile_prefix isPad (ts.dropWhile isPad)
    rw [← hpad] at hdrop
    exact hdrop.left_of_append
  have hplain : ∀ t b, MayFollow t (.plain b) := by
    rintro t b ⟨-, h | h⟩ <;> cases h
  rcases eq_cases c with hnone | ⟨front, value, hfront, rfl | rfl⟩
  · rw [normComponent_of_noEq hnone]
    exact htrim c hchain
  · rw [normComponent_plain hfront, normKey_of_kept ((kept_plain hfront).1 h), List.append_assoc]
    refine (htrim front hchain.left_of_append).append ?_ ?_
    · refine (htrim value hchain.right_of_append.tail).cons ?_
      rintro u - ⟨hchar, -⟩
      cases hchar
    · rintro t - u hu
      obtain rfl : Token.plain 0x3d = u := Option.some.inj hu
      exact hplain t 0x3d
  · rw [normComponent_char hfront]
    refine (hchain.left_of_append.suffix (List.dropWhile_suffix _)).append ?_ ?_
    · refine (htrim value hchain.right_of_append.tail).cons ?_
      rintro u - ⟨hchar, -⟩
      exact absurd (Token.char.inj hchar) (by decide)
    · rintro t - u hu ⟨-, hsep⟩
      obtain rfl : Token.char 0x3d = u := Option.some.inj hu
      rcases hsep with hsep | hsep <;> exact absurd (Token.char.inj hsep) (by decide)

/-! ### Names -/

/-- Change every component. -/
def mapComponents (f : List Token → List Token) (p : List Token × List (UInt8 × List Token)) :
    List Token × List (UInt8 × List Token) :=
  (f p.1, p.2.map fun q => (q.1, f q.2))

/-- Components without separators, between separators. -/
def Separated (p : List Token × List (UInt8 × List Token)) : Prop :=
  (∀ t ∈ p.1, isSep t = false) ∧
    ∀ q ∈ p.2, (q.1 = 0x2c ∨ q.1 = 0x2b) ∧ ∀ t ∈ q.2, isSep t = false

/-- All components are ones of which `P` holds. -/
def AllComponents (P : List Token → Prop) (p : List Token × List (UInt8 × List Token)) : Prop :=
  P p.1 ∧ ∀ q ∈ p.2, P q.2

theorem separated_components (ts : List Token) : Separated (components ts) :=
  ⟨fun t ht => ((components_spec ts).1 t ht).2, fun q hq =>
    ⟨((components_spec ts).2 q hq).1, fun t ht => (((components_spec ts).2 q hq).2 t ht).2⟩⟩

theorem allOk_components {ts : List Token} (hok : ∀ t ∈ ts, t.Ok special) :
    AllComponents (fun c => ∀ t ∈ c, t.Ok special) (components ts) :=
  ⟨fun t ht => hok t ((components_spec ts).1 t ht).1, fun q hq t ht =>
    hok t (((components_spec ts).2 q hq).2 t ht).1⟩

theorem components_append {c : List Token} (hc : ∀ t ∈ c, isSep t = false) (ts : List Token) :
    components (c ++ ts) = (c ++ (components ts).1, (components ts).2) := by
  induction c with
  | nil => rfl
  | cons t c ih =>
    rw [List.cons_append, components_cons (hc t (by simp)),
      ih fun u hu => hc u (List.mem_cons_of_mem _ hu)]
    rfl

theorem isSep_plain {sep : UInt8} (h : sep = 0x2c ∨ sep = 0x2b) : isSep (.plain sep) = true := by
  rcases h with rfl | rfl <;> rfl

/-- What is put together is cut up again. -/
theorem components_joinTokens : ∀ {p : List Token × List (UInt8 × List Token)}, Separated p →
    components (joinTokens p) = p := by
  rintro ⟨first, rest⟩ h
  induction rest generalizing first with
  | nil =>
    have hjoin : joinTokens (first, []) = first ++ [] := rfl
    rw [hjoin, components_append h.1]
    simp [components]
  | cons q rest ih =>
    obtain ⟨sep, c⟩ := q
    have hq := h.2 (sep, c) (by simp)
    have hsep : isSep (.plain sep) = true := isSep_plain hq.1
    have hrest : Separated (c, rest) := ⟨hq.2, fun q' hq' => h.2 q' (List.mem_cons_of_mem _ hq')⟩
    have hjoin : joinTokens (first, (sep, c) :: rest)
        = first ++ .plain sep :: joinTokens (c, rest) := by
      simp [joinTokens]
    rw [hjoin, components_append h.1, components_cons_sep hsep, ih c hrest]
    simp [Token.byte]

theorem text_joinTokens (p : List Token × List (UInt8 × List Token)) :
    text (joinTokens p) = render text p := by
  obtain ⟨first, rest⟩ := p
  unfold joinTokens render
  rw [text_append]
  congr 1
  induction rest with
  | nil => rfl
  | cons q rest ih =>
    rw [List.flatMap_cons, List.flatMap_cons, text_append, ih]
    rfl

theorem render_congr {f g : List Token → List UInt8}
    {p : List Token × List (UInt8 × List Token)} (h : AllComponents (fun c => f c = g c) p) :
    render f p = render g p := by
  unfold render
  rw [h.1]
  congr 1
  apply List.flatMap_congr
  intro q hq
  rw [h.2 q hq]

theorem render_mapComponents (f : List Token → List UInt8) (g : List Token → List Token)
    (p : List Token × List (UInt8 × List Token)) :
    render f (mapComponents g p) = render (fun c => f (g c)) p := by
  simp [render, mapComponents, List.flatMap_map]

theorem rdnsFrom_congr {f : List Token → List Token} : ∀ {first : List Token}
    {rest : List (UInt8 × List Token)},
    AllComponents (fun c => typeAndValue (f c) = typeAndValue c) (first, rest) →
      rdnsFrom (f first) (rest.map fun q => (q.1, f q.2)) = rdnsFrom first rest
  | first, [], h => by
    have hfirst : typeAndValue (f first) = typeAndValue first := h.1
    rw [List.map_nil, rdnsFrom, rdnsFrom, hfirst]
  | first, (sep, c) :: rest, h => by
    have hfirst : typeAndValue (f first) = typeAndValue first := h.1
    have ih := @rdnsFrom_congr f c rest
      ⟨h.2 (sep, c) (by simp), fun q hq => h.2 q (List.mem_cons_of_mem _ hq)⟩
    rw [List.map_cons, rdnsFrom, rdnsFrom, ih, hfirst]

/-- All types and values, in order. -/
theorem flatten_rdnsFrom : ∀ (first : List Token) (rest : List (UInt8 × List Token)),
    (rdnsFrom first rest).flatten = typeAndValue first :: rest.map fun q => typeAndValue q.2
  | first, [] => rfl
  | first, (sep, c) :: rest => by
    have ih := flatten_rdnsFrom c rest
    rw [rdnsFrom, List.map_cons]
    split_ifs
    · rw [List.flatten_cons, ih]
      rfl
    · cases hrest : rdnsFrom c rest with
      | nil =>
        rw [hrest] at ih
        cases ih
      | cons rdn rdns =>
        rw [hrest, List.flatten_cons] at ih
        simp only [List.flatten_cons, List.cons_append, ih]

theorem drops_joinTokens {p : List Token × List (UInt8 × List Token)}
    (h : AllComponents (fun c => Drops (fun t => isPad t = true) c (normComponent c)) p) :
    Drops (fun t => isPad t = true) (joinTokens p)
      (joinTokens (mapComponents normComponent p)) := by
  obtain ⟨first, rest⟩ := p
  refine h.1.append ?_
  have hrest : ∀ q ∈ rest, Drops (fun t => isPad t = true) q.2 (normComponent q.2) := h.2
  clear h
  induction rest with
  | nil => exact .nil
  | cons q rest ih =>
    exact (Drops.keep (hrest q (by simp))).append
      (ih fun q' hq' => hrest q' (List.mem_cons_of_mem _ hq'))

theorem isChain_joinTokens {p : List Token × List (UInt8 × List Token)} :
    (joinTokens p).IsChain MayFollow ↔ AllComponents (fun c => c.IsChain MayFollow) p := by
  have hplain : ∀ t b, MayFollow t (.plain b) := by
    rintro t b ⟨-, h | h⟩ <;> cases h
  have hafter : ∀ b u, MayFollow (.plain b) u := by
    rintro b u ⟨h, -⟩
    cases h
  obtain ⟨first, rest⟩ := p
  induction rest generalizing first with
  | nil =>
    unfold joinTokens AllComponents
    simp
  | cons q rest ih =>
    have hjoin : joinTokens (first, q :: rest) = first ++ .plain q.1 :: joinTokens (q.2, rest) := by
      simp [joinTokens]
    have hih : (joinTokens (q.2, rest)).IsChain MayFollow ↔
        AllComponents (fun c => c.IsChain MayFollow) (q.2, rest) := ih q.2
    rw [hjoin, List.isChain_append, List.isChain_cons, hih]
    unfold AllComponents
    constructor
    · rintro ⟨hfirst, ⟨-, hq, hrest⟩, -⟩
      refine ⟨hfirst, fun q' hq' => ?_⟩
      rcases List.mem_cons.1 hq' with rfl | hq'
      · exact hq
      · exact hrest q' hq'
    · rintro ⟨hfirst, hall⟩
      refine ⟨hfirst, ⟨fun u _ => hafter q.1 u, hall q (by simp),
        fun q' hq' => hall q' (List.mem_cons_of_mem _ hq')⟩, ?_⟩
      rintro t - u hu
      obtain rfl : Token.plain q.1 = u := Option.some.inj hu
      exact hplain t q.1

/-! ### The result -/

theorem separated_mapComponents {p : List Token × List (UInt8 × List Token)} (h : Separated p) :
    Separated (mapComponents normComponent p) := by
  refine ⟨isSep_normComponent h.1, fun q' hq' => ?_⟩
  obtain ⟨q, hq, rfl⟩ := List.mem_map.1 hq'
  exact ⟨(h.2 q hq).1, isSep_normComponent (h.2 q hq).2⟩

theorem ok_joinTokens {ts : List Token} (hok : ∀ t ∈ ts, t.Ok special) :
    ∀ t ∈ joinTokens (mapComponents normComponent (components ts)), t.Ok special := by
  have hallOk := allOk_components hok
  intro t ht
  rcases List.mem_append.1 ht with ht | ht
  · exact ok_normComponent hallOk.1 t ht
  · obtain ⟨q', hq', hmem⟩ := List.mem_flatMap.1 ht
    obtain ⟨q, hq, rfl⟩ := List.mem_map.1 hq'
    rcases List.mem_cons.1 hmem with rfl | hmem
    · show q.1 ≠ backslash
      rcases ((separated_components ts).2 q hq).1 with h | h <;> rw [h] <;> decide
    · exact ok_normComponent (hallOk.2 q hq) t hmem

/-- Where nothing is swallowed, the normal name is made of the normal components. -/
theorem normalizeDnSpacing_eq {ts : List Token} (hok : ∀ t ∈ ts, t.Ok special)
    (hswallows : AllComponents (fun c => ¬ Swallows c) (components ts)) :
    normalizeDnSpacing (text ts)
      = text (joinTokens (mapComponents normComponent (components ts))) := by
  have hallOk := allOk_components hok
  rw [normalizeDnSpacing_text hok, text_joinTokens, render_mapComponents]
  apply render_congr
  have hpush : ∀ c, (∀ t ∈ c, t.Ok special) → ¬ Swallows c →
      pushDnComponent [] (text c) = text (normComponent c) := fun c hc hk =>
    (pushDnComponent_text [] hc).2 hk
  exact ⟨hpush _ hallOk.1 hswallows.1, fun q hq => hpush _ (hallOk.2 q hq) (hswallows.2 q hq)⟩

/-- **The code keeps a name of which every component is kept.** -/
theorem preserves_of_kept {ts : List Token} (hok : ∀ t ∈ ts, t.Ok special) (haccepted : Accepted ts)
    (hkept : AllComponents Kept (components ts)) :
    ∃ ts', Reads special (normalizeDnSpacing (text ts)) ts' ∧ Accepted ts' ∧
      normalizeDnSpacing (text ts') = text ts' ∧ rdns ts' = rdns ts ∧
      ts'.filter Token.IsEscape = ts.filter Token.IsEscape := by
  have hallOk := allOk_components hok
  have hseparated := separated_components ts
  set p := components ts with hp
  set p' := mapComponents normComponent p with hp'
  have hnorm : normalizeDnSpacing (text ts) = text (joinTokens p') :=
    normalizeDnSpacing_eq hok
      ⟨not_swallows_of_kept hkept.1, fun q hq => not_swallows_of_kept (hkept.2 q hq)⟩
  have hok' : ∀ t ∈ joinTokens p', t.Ok special := ok_joinTokens hok
  have hseparated' : Separated p' := separated_mapComponents hseparated
  have hcut : components (joinTokens p') = p' := components_joinTokens hseparated'
  have hdrops : Drops (fun t => isPad t = true) ts (joinTokens p') := by
    have h := drops_joinTokens (p := p)
      ⟨drops_normComponent hkept.1, fun q hq => drops_normComponent (hkept.2 q hq)⟩
    rwa [hp, joinTokens_components] at h
  refine ⟨joinTokens p', ⟨hok', hnorm.symm⟩, ⟨?_, ?_⟩, ?_, ?_, ?_⟩
  · have hchain := haccepted.1
    rw [← joinTokens_components ts, isChain_joinTokens] at hchain
    rw [isChain_joinTokens]
    refine ⟨isChain_normComponent hkept.1 hchain.1, fun q' hq' => ?_⟩
    obtain ⟨q, hq, rfl⟩ := List.mem_map.1 hq'
    exact isChain_normComponent (hkept.2 q hq) (hchain.2 q hq)
  · refine haccepted.2.of_drops (hdrops.map Token.byte ?_)
    intro t ht
    cases t with
    | plain b =>
      have hb : isDnPadding b = true := ht
      simp only [isDnPadding, Bool.or_eq_true, decide_eq_true_eq] at hb
      show b < 0x80
      rcases hb with ((rfl | rfl) | rfl) | rfl <;> decide
    | char c => cases ht
    | hex g l => cases ht
  · rw [normalizeDnSpacing_text hok', hcut, text_joinTokens, hp', render_mapComponents,
      render_mapComponents]
    apply render_congr
    have hpush : ∀ c, (∀ t ∈ c, t.Ok special) → Kept c →
        pushDnComponent [] (text (normComponent c)) = text (normComponent c) := by
      intro c hc hk
      obtain ⟨hagain, hno⟩ := normComponent_normComponent hk
      rw [(pushDnComponent_text [] (ok_normComponent hc)).2 hno, hagain]
      rfl
    exact ⟨hpush _ hallOk.1 hkept.1, fun q hq => hpush _ (hallOk.2 q hq) (hkept.2 q hq)⟩
  · unfold rdns
    rw [hcut]
    show rdnsFrom (normComponent p.1) (p.2.map fun q => (q.1, normComponent q.2))
      = rdnsFrom p.1 p.2
    refine rdnsFrom_congr ⟨?_, fun q hq => ?_⟩
    · exact (typeAndValue_normComponent_iff (not_swallows_of_kept hkept.1)).2 hkept.1
    · exact (typeAndValue_normComponent_iff (not_swallows_of_kept (hkept.2 q hq))).2 (hkept.2 q hq)
  · refine hdrops.filter _ ?_
    intro t ht
    cases t with
    | plain b => rfl
    | char c => cases ht
    | hex g l => cases ht

/-- A component that swallows the separator after it makes the normal name shorter. -/
theorem separators_of_render : ∀ (rest : List (UInt8 × List Token)) (first us : List Token),
    AllComponents (fun c => ∀ t ∈ c, t.Ok special) (first, rest) → Separated (first, rest) →
      (∀ u ∈ us, u.Ok special) →
      text us = render (fun c => pushDnComponent [] (text c)) (first, rest) →
        (components us).2.length ≤ rest.length ∧
          (¬ AllComponents (fun c => ¬ Swallows c) (first, rest) →
            (components us).2.length < rest.length) := by
  intro rest
  induction rest with
  | nil =>
    intro first us hok hsep hus htext
    have hrender : render (fun c => pushDnComponent [] (text c)) (first, [])
        = pushDnComponent [] (text first) := List.append_nil _
    rw [hrender] at htext
    by_cases hswallows : Swallows first
    · rw [(pushDnComponent_text [] hok.1).1 hswallows, List.nil_append] at htext
      have hd : ∀ t ∈ (trimPad first).dropLast, t.Ok special := fun t ht =>
        hok.1 t (mem_of_mem_trimPad (List.dropLast_subset _ ht))
      exact absurd htext (text_ne_append_backslash isHexDigit_of_special hd hus)
    · rw [(pushDnComponent_text [] hok.1).2 hswallows, List.nil_append] at htext
      have heq : us = normComponent first :=
        Reads.unique isHexDigit_of_special (s := text us)
          ⟨ok_normComponent hok.1, htext.symm⟩ ⟨hus, rfl⟩
      have hcut := components_append (isSep_normComponent hsep.1) []
      rw [List.append_nil, ← heq] at hcut
      rw [hcut]
      exact ⟨Nat.le_refl _, fun h => absurd ⟨hswallows, by simp⟩ h⟩
  | cons q rest ih =>
    obtain ⟨sep, c⟩ := q
    intro first us hok hsep hus htext
    have hq := hsep.2 (sep, c) (by simp)
    have hsepOk : sep ≠ backslash := by
      rcases hq.1 with h | h <;> simp only at h <;> rw [h] <;> decide
    have hrender : render (fun c => pushDnComponent [] (text c)) (first, (sep, c) :: rest)
        = pushDnComponent [] (text first)
          ++ sep :: render (fun c => pushDnComponent [] (text c)) (c, rest) := by
      simp [render]
    have ihrest := fun vs hvs htext => ih c vs
      ⟨hok.2 (sep, c) (by simp), fun q hq => hok.2 q (List.mem_cons_of_mem _ hq)⟩
      ⟨hq.2, fun q hq => hsep.2 q (List.mem_cons_of_mem _ hq)⟩ hvs htext
    rw [hrender] at htext
    by_cases hswallows : Swallows first
    · rw [(pushDnComponent_text [] hok.1).1 hswallows, List.nil_append, List.append_assoc,
        List.singleton_append] at htext
      have hd : ∀ t ∈ (trimPad first).dropLast, t.Ok special := fun t ht =>
        hok.1 t (mem_of_mem_trimPad (List.dropLast_subset _ ht))
      have hdSep : ∀ t ∈ (trimPad first).dropLast, isSep t = false := fun t ht =>
        hsep.1 t (mem_of_mem_trimPad (List.dropLast_subset _ ht))
      have hhex : isHexDigit sep = false := by
        rcases hq.1 with h | h <;> simp only at h <;> rw [h] <;> decide
      obtain ⟨vs, rfl, hvs⟩ := text_append_backslash isHexDigit_of_special hhex hd hus htext
      have hle := (ihrest vs (fun v hv => hus v (by simp [hv])) hvs).1
      rw [components_append hdSep, components_cons rfl, List.length_cons]
      exact ⟨by simp only; omega, fun _ => by simp only; omega⟩
    · rw [(pushDnComponent_text [] hok.1).2 hswallows, List.nil_append] at htext
      have hfront : ∀ t ∈ normComponent first ++ [.plain sep], t.Ok special := by
        intro t ht
        rcases List.mem_append.1 ht with ht | ht
        · exact ok_normComponent hok.1 t ht
        · rw [List.mem_singleton.1 ht]
          exact hsepOk
      have htext' : text us = text (normComponent first ++ [.plain sep])
          ++ render (fun c => pushDnComponent [] (text c)) (c, rest) := by
        rw [htext, text_append, List.append_assoc]
        rfl
      obtain ⟨vs, rfl, hvs⟩ := text_append_inj isHexDigit_of_special hfront hus htext'
      obtain ⟨hle, hlt⟩ := ihrest vs (fun v hv => hus v (by simp [hv])) hvs
      rw [List.append_assoc, components_append (isSep_normComponent hsep.1), List.singleton_append,
        components_cons_sep (isSep_plain hq.1), List.length_cons]
      refine ⟨by simp only [List.length_cons]; omega, fun hall => ?_⟩
      have hall' : ¬ AllComponents (fun c => ¬ Swallows c) (c, rest) := by
        rintro ⟨hc, hrest⟩
        refine hall ⟨hswallows, fun q hq => ?_⟩
        rcases List.mem_cons.1 hq with rfl | hq
        · exact hc
        · exact hrest q hq
      have hlt' := hlt hall'
      simp only [List.length_cons]
      omega

/-- What denotes the same as before has components that are kept. -/
theorem kept_of_rdns_eq {ts ts' : List Token} (hok : ∀ t ∈ ts, t.Ok special)
    (hreads : Reads special (normalizeDnSpacing (text ts)) ts') (hrdns : rdns ts' = rdns ts) :
    AllComponents Kept (components ts) := by
  have hallOk := allOk_components hok
  have hseparated := separated_components ts
  have hflatten := congrArg List.flatten hrdns
  unfold rdns at hflatten
  rw [flatten_rdnsFrom, flatten_rdnsFrom] at hflatten
  have hlength := congrArg List.length hflatten
  rw [List.length_cons, List.length_cons, List.length_map, List.length_map] at hlength
  have htext : text ts' = render (fun c => pushDnComponent [] (text c)) (components ts) := by
    rw [hreads.2, normalizeDnSpacing_text hok]
  have hcount := separators_of_render (components ts).2 (components ts).1 ts' hallOk hseparated
    hreads.1 htext
  have hswallows : AllComponents (fun c => ¬ Swallows c) (components ts) := by
    by_contra hno
    have := hcount.2 hno
    omega
  -- so the normal name is the normal components, and each has the same meaning as before
  have hnorm : text ts' = text (joinTokens (mapComponents normComponent (components ts))) := by
    rw [hreads.2, normalizeDnSpacing_eq hok hswallows]
  have heq : ts' = joinTokens (mapComponents normComponent (components ts)) :=
    Reads.unique isHexDigit_of_special (s := text ts') ⟨ok_joinTokens hok, hnorm.symm⟩
      ⟨hreads.1, rfl⟩
  rw [heq, components_joinTokens (separated_mapComponents hseparated)] at hflatten
  obtain ⟨hfirst, hrest⟩ := List.cons.inj hflatten
  rw [mapComponents, List.map_map, List.map_inj_left] at hrest
  exact ⟨(typeAndValue_normComponent_iff hswallows.1).1 hfirst,
    fun q hq => (typeAndValue_normComponent_iff (hswallows.2 q hq)).1 (hrest q hq)⟩

/-- **The code accepts exactly the well-escaped names, and normalizes an accepted name without a
change of its meaning if and only if every component of it is `Kept`.** -/
theorem preserves_iff (dn : List UInt8) :
    (validateDnEscapes dn = .ok () ↔ ∃ ts, Reads special dn ts ∧ Accepted ts) ∧
      (Preserves dn ↔ (validateDnEscapes dn = .ok () → ∀ ts, Reads special dn ts →
        AllComponents Kept (components ts))) := by
  refine ⟨validateDnEscapes_eq_ok_iff, ?_, ?_⟩
  · intro h hvalid ts hreads
    obtain ⟨-, -, ts', hreads', hrdns, -⟩ := h hvalid ts hreads
    rw [← hreads.2] at hreads'
    exact kept_of_rdns_eq hreads.1 hreads' hrdns
  · intro h hvalid ts hreads
    have haccepted := (accepted_of_reads hreads).1 hvalid
    obtain ⟨ts', hreads', haccepted', hnormal, hrdns, hescapes⟩ :=
      preserves_of_kept hreads.1 haccepted (h hvalid ts hreads)
    rw [hreads.2] at hreads'
    refine ⟨(accepted_of_reads hreads').2 haccepted', ?_, ts', hreads', hrdns, hescapes⟩
    rw [← hreads'.2]
    exact hnormal

/-- The bytes of `O=x,a\ `. -/
def escapedSpaceAtEnd : List UInt8 := [0x4f, 0x3d, 0x78, 0x2c, 0x61, 0x5c, 0x20]

/-- The name is accepted, and its normal form ends in a backslash. -/
theorem not_preserves_escapedSpaceAtEnd :
    validateDnEscapes escapedSpaceAtEnd = .ok () ∧
      normalizeDnSpacing escapedSpaceAtEnd = [0x4f, 0x3d, 0x78, 0x2c, 0x61, 0x5c] ∧
      ¬ Preserves escapedSpaceAtEnd := by
  have hvalid : validateDnEscapes escapedSpaceAtEnd = .ok () := by decide +kernel
  have hnorm : normalizeDnSpacing escapedSpaceAtEnd = [0x4f, 0x3d, 0x78, 0x2c, 0x61, 0x5c] := by
    decide +kernel
  refine ⟨hvalid, hnorm, fun h => ?_⟩
  obtain ⟨ts, hreads, -⟩ := validateDnEscapes_eq_ok_iff.1 hvalid
  have hvalid' := (h hvalid ts hreads).1
  rw [hnorm] at hvalid'
  exact absurd hvalid' (by decide +kernel)

end Ostrich.Common.GrpcDn
