import Ostrich.Common.Pem
import Mathlib.Tactic.SplitIfs

/-!
# Round trips and panics of PEM

* `pemToDer_derToPem`: a block that is written with a label of RFC 7468 is read back, whatever is
  before it without a marker and whatever is after it;
* `returns_iff`: reading returns unless the first END marker starts before the first BEGIN line ends
  (`EndsFirst`);
* `pem_codec_iff`: both together; `pem_end_first_panics` is a text that panics.
-/

namespace Ostrich.Common.Encoding

open Base64 FindList Text

/-! ### Labels -/

/-- `labelchar` of RFC 7468: any printable character except the hyphen. -/
def labelChar (c : Char) : Bool := 0x21 ≤ c.toNat && c.toNat ≤ 0x7E && c ≠ '-'

/-- `*( ["-" / SP] labelchar )`. -/
inductive LabelTail : List Char → Prop
  | nil : LabelTail []
  | char {c : Char} {l : List Char} (hc : labelChar c) (hl : LabelTail l) : LabelTail (c :: l)
  | separated {s c : Char} {l : List Char} (hs : s = '-' ∨ s = ' ') (hc : labelChar c)
      (hl : LabelTail l) : LabelTail (s :: c :: l)

/-- `[ labelchar *( ["-" / SP] labelchar ) ]`. -/
inductive Label : List Char → Prop
  | nil : Label []
  | cons {c : Char} {l : List Char} (hc : labelChar c) (hl : LabelTail l) : Label (c :: l)

theorem ne_dash_of_labelChar {c : Char} (h : labelChar c) : '-' ≠ c := by
  rintro rfl
  exact absurd h (by decide)

/-- A pattern that starts with two dashes is not found in a label or across its end. -/
theorem find_labelTail {label : List Char} (h : LabelTail label) (pat l : List Char) :
    find ('-' :: '-' :: pat) (label ++ l)
      = (find ('-' :: '-' :: pat) l).map (· + label.length) := by
  induction h with
  | nil => simp
  | char hc hl ih =>
    rw [List.cons_append, find_cons_of_ne (ne_dash_of_labelChar hc), ih, Option.map_map]
    rfl
  | @separated s c label hs hc hl ih =>
    have hnot : ¬('-' :: '-' :: pat) <+: s :: c :: (label ++ l) := by
      intro hpre
      have htail := (List.cons_prefix_cons.mp hpre).2
      exact ne_dash_of_labelChar hc (List.cons_prefix_cons.mp htail).1
    rw [List.cons_append, List.cons_append, find_cons_of_not hnot,
      find_cons_of_ne (ne_dash_of_labelChar hc), ih, Option.map_map, Option.map_map]
    rfl

theorem find_label {label : List Char} (h : Label label) (pat l : List Char) :
    find ('-' :: '-' :: pat) (label ++ l)
      = (find ('-' :: '-' :: pat) l).map (· + label.length) := by
  cases h with
  | nil => simp
  | cons hc hl => exact find_labelTail (.char hc hl) pat l

/-! ### Chunks -/

theorem flatten_chunks {n : ℕ} (hn : n ≠ 0) (s : List Char) : (chunks n s).flatten = s := by
  induction s using chunks.induct n with
  | case1 s h =>
    rw [chunks, dif_pos h]
    rcases h with rfl | h
    · rfl
    · exact absurd h hn
  | case2 s h ih => rw [chunks, dif_neg h, List.flatten_cons, ih, List.take_append_drop]

/-- What the filter drops may be between the parts. -/
theorem filter_intercalate {p : Char → Bool} {c : Char} (hc : p c = false) :
    ∀ parts : List (List Char), ([c].intercalate parts).filter p = parts.flatten.filter p
  | [] => rfl
  | [part] => by rw [List.intercalate_singleton, List.flatten_cons, List.flatten_nil,
      List.append_nil]
  | part :: next :: rest => by
    rw [List.intercalate_cons_cons, List.filter_append, List.filter_append,
      filter_intercalate hc (next :: rest),
      List.filter_cons_of_neg (by rw [hc]; exact Bool.false_ne_true), List.filter_nil,
      List.append_nil, ← List.filter_append, ← List.flatten_cons]

theorem filter_chunkString {s : List Char} (hs : ∀ c ∈ s, isWhitespace c = false) {n : ℕ}
    (hn : n ≠ 0) : (chunkString s n).filter (fun c => !isWhitespace c) = s := by
  rw [chunkString, filter_intercalate (by decide), flatten_chunks hn, List.filter_eq_self]
  intro c hc
  rw [hs c hc]
  rfl

/-- There is nothing in the chunks but the text and newlines. -/
theorem mem_chunkString {s : List Char} {n : ℕ} (hn : n ≠ 0) {c : Char}
    (hc : c ∈ chunkString s n) : c = '\n' ∨ c ∈ s := by
  by_cases hnewline : c = '\n'
  · exact .inl hnewline
  · right
    have hkeep : c ∈ (chunkString s n).filter (· ≠ '\n') := by
      rw [List.mem_filter]
      exact ⟨hc, decide_eq_true hnewline⟩
    rw [chunkString, filter_intercalate (by decide), flatten_chunks hn] at hkeep
    exact List.mem_of_mem_filter hkeep

/-! ### Trimming -/

theorem dropWhile_append_of_head {p : Char → Bool} (a : List Char) {c : Char} (hc : p c = false)
    (l : List Char) : (a ++ c :: l).dropWhile p = a.dropWhile p ++ c :: l := by
  induction a with
  | nil => rw [List.nil_append, List.dropWhile_cons_of_neg (by rw [hc]; exact Bool.false_ne_true),
      List.dropWhile_nil, List.nil_append]
  | cons x a ih =>
    by_cases hx : p x = true
    · rw [List.cons_append, List.dropWhile_cons_of_pos hx, List.dropWhile_cons_of_pos hx, ih]
    · rw [List.cons_append, List.dropWhile_cons_of_neg hx, List.dropWhile_cons_of_neg hx,
        List.cons_append]

/-- Trimming stops at what is no white space. -/
theorem trimList_append (a : List Char) {first last : Char} (hfirst : isWhitespace first = false)
    (hlast : isWhitespace last = false) (middle b : List Char) :
    ∃ a' b', a' <:+ a ∧
      trimList (a ++ first :: (middle ++ last :: b)) = a' ++ first :: (middle ++ last :: b') := by
  refine ⟨a.dropWhile isWhitespace, (b.reverse.dropWhile isWhitespace).reverse,
    List.dropWhile_suffix _, ?_⟩
  have hreverse : (a.dropWhile isWhitespace ++ first :: (middle ++ last :: b)).reverse
      = b.reverse ++ last :: (a.dropWhile isWhitespace ++ first :: middle).reverse := by
    simp
  rw [trimList, dropWhile_append_of_head a hfirst, hreverse, dropWhile_append_of_head _ hlast]
  simp

/-! ### The round trip -/

theorem slice_append (a b c : List Char) {i j : ℕ} (hi : i = a.length) (hj : j = i + b.length) :
    slice (a ++ (b ++ c)) i j = .ok b := by
  subst hi hj
  rw [slice, if_pos (Nat.le_add_right _ _), List.drop_left, Nat.add_sub_cancel_left,
    List.take_left]

theorem find_endMarker_begin (l : List Char) :
    find endMarker (beginMarker ++ l) = (find endMarker l).map (· + 11) := by
  unfold endMarker beginMarker dashes
  simp [find, Option.map_map, Function.comp_def]

theorem find_endMarker_dashes (l : List Char) :
    find endMarker (dashes ++ '\n' :: l) = (find endMarker l).map (· + 6) := by
  unfold endMarker dashes
  simp [find, Option.map_map, Function.comp_def]

theorem find_of_start (pat l : List Char) :
    find pat (pat ++ l) = some 0 := by
  rw [find_eq_some_iff]
  refine ⟨Nat.zero_le _, ?_, fun j hj => absurd hj (Nat.not_lt_zero j)⟩
  rw [List.drop_zero]
  exact List.prefix_append pat l

/-- The first BEGIN marker is after the text without one. -/
theorem find_beginMarker_append {front : List Char} (h : ¬beginMarker <:+: front) (l : List Char) :
    find beginMarker (front ++ (beginMarker ++ l)) = some front.length := by
  have hskip := @find_append_of_separator Char _ (dashes ++ ['B', 'E', 'G', 'I', 'N'])
    (dashes ++ ['B', 'E', 'G', 'I', 'N']) ' ' (by decide) (Nat.le_refl _) front h (' ' :: l)
  have hhere : (find beginMarker (beginMarker ++ l)).map (· + front.length)
      = some front.length := by
    rw [find_of_start, Option.map_some, Nat.zero_add]
  exact hskip.trans hhere

/-- No END marker reaches from such a text into a BEGIN marker, and none is in that one. -/
theorem find_endMarker_append {front : List Char} (h : ¬endMarker <:+: front) (l : List Char) :
    find endMarker (front ++ (beginMarker ++ l))
      = (find endMarker l).map (· + (11 + front.length)) := by
  have hskip := @find_append_of_separator Char _ (dashes ++ ['E', 'N', 'D'])
    (dashes ++ ['B', 'E', 'G', 'I', 'N']) ' ' (by decide) (by decide) front h (' ' :: l)
  have hhere : (find endMarker (beginMarker ++ l)).map (· + front.length)
      = (find endMarker l).map (· + (11 + front.length)) := by
    rw [find_endMarker_begin, Option.map_map]
    congr 1
    funext k
    exact Nat.add_assoc k 11 front.length
  exact hskip.trans hhere

theorem find_endMarker_label {label : List Char} (h : Label label) (l : List Char) :
    find endMarker (label ++ l) = (find endMarker l).map (· + label.length) := find_label h _ l

theorem find_dashes_label {label : List Char} (h : Label label) (l : List Char) :
    find dashes (label ++ (dashes ++ l)) = some label.length := by
  have hskip : find dashes (label ++ (dashes ++ l))
      = (find dashes (dashes ++ l)).map (· + label.length) := find_label h _ _
  rw [hskip, find_of_start, Option.map_some, Nat.zero_add]

theorem find_endMarker_content {content : List Char} (h : '-' ∉ content) (l : List Char) :
    find endMarker (content ++ (endMarker ++ l)) = some content.length := by
  have hskip : find endMarker (content ++ (endMarker ++ l))
      = (find endMarker (endMarker ++ l)).map (· + content.length) := find_append_of_not_mem h _
  rw [hskip, find_of_start, Option.map_some, Nat.zero_add]

/-- There is no marker in the text. -/
def MarkerFree (text : List Char) : Prop := ¬beginMarker <:+: text ∧ ¬endMarker <:+: text

/-- **A block is read back**, also after text without markers and before any text. -/
theorem pemToDer_derToPem (der : List UInt8) {label : List Char} (hlabel : Label label)
    {before : List Char} (hbefore : MarkerFree before) (after : List Char) :
    pemToDer (before ++ (derToPem der label ++ after)) (some label) = .ok der := by
  set chunk := chunkString (encodeBase64 der) 64 with hchunk
  have hclean : ∀ c ∈ encodeBase64 der, isWhitespace c = false :=
    fun c hc => (encodeStandard_clean hc).2
  have hnodash : '-' ∉ chunk ++ ['\n'] := by
    intro hmem
    rcases List.mem_append.mp hmem with hmem | hmem
    · rcases mem_chunkString (by decide) hmem with heq | hmem
      · exact absurd heq (by decide)
      · exact (encodeStandard_clean hmem).1 rfl
    · exact absurd (List.mem_singleton.mp hmem) (by decide)
  -- the block from its first dash to its last one
  have hdash : isWhitespace '-' = false := by decide
  obtain ⟨front, back, hfront, htrim⟩ := trimList_append before hdash hdash
    (['-', '-', '-', '-', 'B', 'E', 'G', 'I', 'N', ' '] ++ label ++ dashes ++ ['\n'] ++ chunk
      ++ ['\n'] ++ endMarker ++ label ++ ['-', '-', '-', '-']) ('\n' :: after)
  set rest := label ++ (dashes ++ back) with hrest
  have htext : trimList (before ++ (derToPem der label ++ after))
      = front ++ (beginMarker ++ (label ++ (dashes ++ ('\n' :: (chunk ++ ['\n']
        ++ (endMarker ++ rest)))))) := by
    rw [hrest]
    simp only [derToPem, beginMarker, dashes, List.cons_append, List.nil_append, List.append_assoc,
      ← hchunk] at htrim ⊢
    exact htrim
  have hfree : MarkerFree front := by
    exact ⟨fun h => hbefore.1 (h.trans hfront.isInfix), fun h => hbefore.2 (h.trans hfront.isInfix)⟩
  set inner := chunk ++ ['\n'] with hinner
  set text := front ++ (beginMarker ++ (label ++ (dashes ++ ('\n' :: (inner ++
    (endMarker ++ rest)))))) with htextDef
  have hbegin : find beginMarker text = some front.length := find_beginMarker_append hfree.1 _
  have hend : find endMarker text
      = some (inner.length + 6 + label.length + (11 + front.length)) := by
    rw [htextDef, find_endMarker_append hfree.2, find_endMarker_label hlabel,
      find_endMarker_dashes, find_endMarker_content hnodash]
    rfl
  have hdrop : text.drop (front.length + beginMarker.length)
      = label ++ (dashes ++ ('\n' :: (inner ++ (endMarker ++ rest)))) := by
    rw [htextDef, ← List.drop_drop, List.drop_left, List.drop_left]
  have hlabelSlice : slice text (front.length + beginMarker.length)
      (label.length + (front.length + beginMarker.length)) = .ok label := by
    rw [htextDef, ← List.append_assoc]
    exact slice_append (front ++ beginMarker) label _ (by rw [List.length_append]) (by omega)
  have hcontentSlice : slice text (label.length + (front.length + beginMarker.length) + 5)
      (inner.length + 6 + label.length + (11 + front.length)) = .ok ('\n' :: inner) := by
    have hsplit : text = (front ++ beginMarker ++ label ++ dashes)
        ++ (('\n' :: inner) ++ (endMarker ++ rest)) := by
      rw [htextDef]
      simp only [List.append_assoc, List.cons_append]
    have h₅ : dashes.length = 5 := rfl
    have h₁₁ : beginMarker.length = 11 := rfl
    rw [hsplit]
    exact slice_append _ _ _ (by simp only [List.length_append]; omega)
      (by rw [List.length_cons]; omega)
  have hfilter : ('\n' :: inner).filter (fun c => !isWhitespace c) = encodeBase64 der := by
    rw [List.filter_cons_of_neg (by decide), hinner, List.filter_append,
      filter_chunkString hclean (by decide), List.filter_cons_of_neg (by decide), List.filter_nil,
      List.append_nil]
  unfold pemToDer
  dsimp only
  rw [htext, hbegin, hend]
  dsimp only [orErr]
  rw [Outcome.ok_bind, Outcome.ok_bind, hdrop, find_dashes_label hlabel]
  dsimp only [orErr]
  rw [Outcome.ok_bind, hlabelSlice, Outcome.ok_bind, if_neg (not_not.mpr rfl),
    pemToDer.content, hcontentSlice, Outcome.ok_bind, hfilter, decodeBase64, encodeBase64,
    decodeStandard_encodeStandard]
  rfl

/-! ### Panics -/

/-- The first END marker does not start before the first BEGIN line ends, if that one has the
expected label. -/
def EndsAfterBegin (expectedLabel : Option (List Char)) (text : List Char) : Prop :=
  ∀ beginIdx endIdx n, FirstAt beginMarker beginIdx text → FirstAt endMarker endIdx text →
    FirstAt dashes n (text.drop (beginIdx + 11)) →
    (∀ expected ∈ expectedLabel, (text.drop (beginIdx + 11)).take n = expected) →
    beginIdx + 11 + n + 5 ≤ endIdx

theorem orErr_bind {α β : Type} {msg : String} {x : Option α} {f : α → Outcome Error β} :
    (orErr msg x >>= f).Returns ↔ ∀ a, x = some a → (f a).Returns := by
  cases x with
  | none => simp [orErr, Outcome.Returns]
  | some a => simp [orErr]

theorem returns_content (text : List Char) (labelEnd endIdx : ℕ) :
    (pemToDer.content text labelEnd endIdx).Returns ↔ labelEnd + 5 ≤ endIdx := by
  unfold pemToDer.content slice
  split_ifs with hle
  · refine iff_of_true ?_ hle
    rw [Outcome.ok_bind]
    split
    · trivial
    · trivial
  · exact iff_of_false id hle

theorem slice_from (text : List Char) (start n : ℕ) :
    slice text start (n + start) = .ok ((text.drop start).take n) := by
  rw [slice, if_pos (Nat.le_add_left _ _), Nat.add_sub_cancel]

/-- **Reading a text returns exactly when the markers are in order.** -/
theorem returns_iff (pem : List Char) (expectedLabel : Option (List Char)) :
    (pemToDer pem expectedLabel).Returns ↔ EndsAfterBegin expectedLabel (trimList pem) := by
  unfold pemToDer EndsAfterBegin
  dsimp only
  rw [orErr_bind]
  simp only [orErr_bind, find_eq_some_iff, slice_from, Outcome.ok_bind]
  rw [show beginMarker.length = 11 from rfl]
  constructor
  · intro h b e n hb he hn hexpected
    have hreturns := h b hb e he n hn
    cases expectedLabel with
    | none =>
      have hle := (returns_content _ _ _).mp hreturns
      omega
    | some expected =>
      dsimp only at hreturns
      rw [if_neg (not_not.mpr (hexpected expected rfl))] at hreturns
      have hle := (returns_content _ _ _).mp hreturns
      omega
  · intro h b hb e he n hn
    cases expectedLabel with
    | none =>
      have hle := h b e n hb he hn fun expected hmem => by cases hmem
      exact (returns_content _ _ _).mpr (by omega)
    | some expected =>
      dsimp only
      split_ifs with hlabel
      · trivial
      · have hle := h b e n hb he hn fun label hmem => by
          rw [← Option.some.inj hmem]
          exact not_not.mp hlabel
        exact (returns_content _ _ _).mpr (by omega)

/-- **Blocks are read back, and reading returns** exactly when the first END marker does not start
before the first BEGIN line ends. -/
theorem pem_codec_iff (pem : List Char) (expectedLabel : Option (List Char)) :
    (∀ der label before after, Label label → MarkerFree before →
      pemToDer (before ++ (derToPem der label ++ after)) (some label) = .ok der) ∧
    ((pemToDer pem expectedLabel).Returns ↔ EndsAfterBegin expectedLabel (trimList pem)) :=
  ⟨fun der _ _ after hlabel hbefore => pemToDer_derToPem der hlabel hbefore after,
    returns_iff pem expectedLabel⟩

/-- An END marker before the BEGIN line. -/
theorem pem_end_first_panics :
    pemToDer "-----END A-----\n-----BEGIN A-----\n".toList none = .panic := by
  decide +kernel

end Ostrich.Common.Encoding
