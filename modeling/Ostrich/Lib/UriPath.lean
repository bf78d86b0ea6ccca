import Mathlib.Data.List.TakeWhile
import Mathlib.Tactic.Common

/-!
# Paths of URIs (RFC 3986)

A path is a list of octets.  `Encodes encoded decoded` is percent-encoding (section 2.1): the first
string spells the second, each octet by itself (except `%`) or by an escape `%` HEXDIG HEXDIG.
`percentDecode` computes it.

A `Step` is something that a server does with a path before it uses its segments: cut it at the
first `?` or `#`, remove its dot segments (section 5.2.4), or decode each of its segments.

* `run_of_plain`: if no segment is a dot segment and no segment contains, after decoding, a
  delimiter, then every sequence of steps with one decoding has one result, the decoded segments.
-/

namespace Ostrich.UriPath

/-! ### Percent-encoding -/

/-- The octets `%`, `.`, `/`, `?`, `#` and `\`. -/
abbrev percent : UInt8 := 0x25
abbrev dot : UInt8 := 0x2E
abbrev slash : UInt8 := 0x2F
abbrev question : UInt8 := 0x3F
abbrev hash : UInt8 := 0x23
abbrev backslash : UInt8 := 0x5C

/-- The value of a hexadecimal digit. -/
def hex (b : UInt8) : Option UInt8 :=
  if 0x30 ≤ b ∧ b ≤ 0x39 then some (b - 0x30)
  else if 0x61 ≤ b ∧ b ≤ 0x66 then some (b - 0x61 + 10)
  else if 0x41 ≤ b ∧ b ≤ 0x46 then some (b - 0x41 + 10)
  else none

/-- The first string spells the second. -/
inductive Encodes : List UInt8 → List UInt8 → Prop
  | nil : Encodes [] []
  | literal {b : UInt8} {encoded decoded : List UInt8} (hb : b ≠ percent)
      (h : Encodes encoded decoded) : Encodes (b :: encoded) (b :: decoded)
  | escape {hi lo hiValue loValue : UInt8} {encoded decoded : List UInt8}
      (hhi : hex hi = some hiValue) (hlo : hex lo = some loValue) (h : Encodes encoded decoded) :
      Encodes (percent :: hi :: lo :: encoded) ((hiValue * 16 + loValue) :: decoded)

/-- What a string spells. -/
def percentDecode : List UInt8 → Option (List UInt8)
  | [] => some []
  | b :: bytes =>
    if b = percent then
      match bytes with
      | hi :: lo :: rest =>
        match hex hi, hex lo with
        | some hi, some lo => (percentDecode rest).map ((hi * 16 + lo) :: ·)
        | _, _ => none
      | _ => none
    else (percentDecode bytes).map (b :: ·)

theorem percentDecode_of_encodes {encoded decoded : List UInt8} (h : Encodes encoded decoded) :
    percentDecode encoded = some decoded := by
  induction h with
  | nil => rfl
  | literal hb _ ih =>
    unfold percentDecode
    rw [if_neg hb, ih, Option.map_some]
  | escape hhi hlo _ ih =>
    rw [percentDecode, if_pos rfl]
    simp only [hhi, hlo, ih, Option.map_some]

theorem encodes_of_percentDecode {encoded decoded : List UInt8}
    (h : percentDecode encoded = some decoded) : Encodes encoded decoded := by
  fun_induction percentDecode encoded generalizing decoded with
  | case1 =>
    obtain rfl := Option.some.inj h
    exact .nil
  | case2 hi lo rest hiValue hhi loValue hlo ih =>
    obtain ⟨tail, htail, rfl⟩ := Option.map_eq_some_iff.mp h
    exact .escape ‹_› ‹_› (ih htail)
  | case3 => cases h
  | case4 => cases h
  | case5 b bytes hb ih =>
    obtain ⟨tail, htail, rfl⟩ := Option.map_eq_some_iff.mp h
    exact .literal hb (ih htail)

theorem percentDecode_iff {encoded decoded : List UInt8} :
    percentDecode encoded = some decoded ↔ Encodes encoded decoded :=
  ⟨encodes_of_percentDecode, percentDecode_of_encodes⟩

/-- An octet other than an escape is spelled by itself. -/
theorem Encodes.mem {encoded decoded : List UInt8} (h : Encodes encoded decoded) {b : UInt8}
    (hb : b ∈ encoded) (hpercent : b ≠ percent) (hhex : hex b = none) : b ∈ decoded := by
  induction h with
  | nil => exact absurd hb List.not_mem_nil
  | literal _ _ ih =>
    rcases List.mem_cons.mp hb with rfl | hb
    · exact List.mem_cons_self ..
    · exact List.mem_cons_of_mem _ (ih hb)
  | escape hhi hlo _ ih =>
    simp only [List.mem_cons] at hb
    rcases hb with rfl | rfl | rfl | hb
    · exact absurd rfl hpercent
    · rw [hhex] at hhi
      cases hhi
    · rw [hhex] at hlo
      cases hlo
    · exact List.mem_cons_of_mem _ (ih hb)

/-! ### Segments -/

/-- The segments of a path contain no slash. -/
theorem slash_not_mem {path segment : List UInt8} (h : segment ∈ path.splitOn slash) :
    slash ∉ segment := by
  induction path generalizing segment with
  | nil =>
    rw [List.splitOn_nil, List.mem_singleton] at h
    rw [h]
    exact List.not_mem_nil
  | cons b path ih =>
    rw [List.splitOn_cons_eq_if_modifyHead] at h
    split_ifs at h with hb
    · rcases List.mem_cons.mp h with rfl | h
      · exact List.not_mem_nil
      · exact ih h
    · cases hsplit : path.splitOn slash with
      | nil => exact absurd hsplit (List.splitOn_ne_nil slash path)
      | cons first rest =>
        rw [hsplit, List.modifyHead_cons] at h
        rcases List.mem_cons.mp h with rfl | h
        · intro hmem
          rcases List.mem_cons.mp hmem with rfl | hmem
          · exact hb (beq_self_eq_true _)
          · exact ih (hsplit ▸ List.mem_cons_self ..) hmem
        · exact ih (hsplit ▸ List.mem_cons_of_mem _ h)

/-- The path with these segments. -/
def join (segments : List (List UInt8)) : List UInt8 := [slash].intercalate segments

/-! ### Dot segments -/

/-- The output without its last segment and the slash before it. -/
def dropLastSegment (output : List UInt8) : List UInt8 :=
  ((output.reverse.dropWhile (· ≠ slash)).drop 1).reverse

/-- The first segment of a path, with the slash before it if there is one. -/
def firstSegment : List UInt8 → List UInt8
  | [] => []
  | b :: rest => b :: rest.takeWhile (· ≠ slash)

/-- `remove_dot_segments`, with what it has moved to the output so far. -/
def removeDotSegments (output input : List UInt8) : List UInt8 :=
  if [dot, dot, slash] <+: input then removeDotSegments output (input.drop 3)
  else if [dot, slash] <+: input then removeDotSegments output (input.drop 2)
  else if [slash, dot, slash] <+: input then removeDotSegments output (input.drop 2)
  else if input = [slash, dot] then output ++ [slash]
  else if [slash, dot, dot, slash] <+: input then
    removeDotSegments (dropLastSegment output) (input.drop 3)
  else if input = [slash, dot, dot] then dropLastSegment output ++ [slash]
  else if input = [dot] ∨ input = [dot, dot] then output
  else if input = [] then output
  else removeDotSegments (output ++ firstSegment input) (input.drop (firstSegment input).length)
termination_by input.length
decreasing_by
  · rename_i h
    have := h.length_le
    simp only [List.length_cons, List.length_nil, List.length_drop] at this ⊢
    omega
  · rename_i h
    have := h.length_le
    simp only [List.length_cons, List.length_nil, List.length_drop] at this ⊢
    omega
  · rename_i h
    have := h.length_le
    simp only [List.length_cons, List.length_nil, List.length_drop] at this ⊢
    omega
  · rename_i h
    have := h.length_le
    simp only [List.length_cons, List.length_nil, List.length_drop] at this ⊢
    omega
  · cases input with
    | nil => contradiction
    | cons b rest =>
      rw [List.length_drop, firstSegment, List.length_cons, List.length_cons]
      omega

/-- A segment that stays. -/
def Plain (segment : List UInt8) : Prop :=
  slash ∉ segment ∧ segment ≠ [dot] ∧ segment ≠ [dot, dot]

/-- The path of segments that each follow a slash. -/
def rooted (segments : List (List UInt8)) : List UInt8 := segments.flatMap (slash :: ·)

theorem join_cons (segment : List UInt8) (segments : List (List UInt8)) :
    join (segment :: segments) = segment ++ rooted segments := by
  induction segments generalizing segment with
  | nil => simp [join, rooted]
  | cons next segments ih =>
    have hnext := ih next
    unfold join at hnext ⊢
    rw [List.intercalate_cons_cons, hnext]
    simp [rooted]

/-- What stands before the first slash. -/
theorem takeWhile_append_rooted {segment : List UInt8} (h : slash ∉ segment)
    (segments : List (List UInt8)) :
    (segment ++ rooted segments).takeWhile (· ≠ slash) = segment := by
  rw [List.takeWhile_append_of_pos]
  · cases segments with
    | nil => simp [rooted]
    | cons next segments =>
      rw [rooted, List.flatMap_cons, List.cons_append, List.takeWhile_cons_of_neg (by simp),
        List.append_nil]
  · intro b hb
    have hne : b ≠ slash := fun heq => h (heq ▸ hb)
    simpa using hne

theorem takeWhile_of_starts {start tail : List UInt8} (h : start ++ [slash] <+: tail)
    (hstart : slash ∉ start) : tail.takeWhile (· ≠ slash) = start := by
  obtain ⟨rest, rfl⟩ := h
  rw [List.append_assoc, List.takeWhile_append_of_pos, List.singleton_append,
    List.takeWhile_cons_of_neg (by simp), List.append_nil]
  intro b hb
  have hne : b ≠ slash := fun heq => hstart (heq ▸ hb)
  simpa using hne

/-- A plain segment after a slash is moved to the output. -/
theorem removeDotSegments_slash {segment : List UInt8} (h : Plain segment)
    (segments : List (List UInt8)) (output : List UInt8) :
    removeDotSegments output (slash :: (segment ++ rooted segments)) =
      removeDotSegments (output ++ slash :: segment) (rooted segments) := by
  obtain ⟨hslash, hdot, hdots⟩ := h
  have hfirst := takeWhile_append_rooted hslash segments
  have hdrop : (segment ++ rooted segments).drop segment.length = rooted segments :=
    List.drop_left ..
  generalize segment ++ rooted segments = tail at hfirst hdrop ⊢
  have hone : ¬[dot, slash] <+: tail := fun hstarts =>
    hdot (hfirst.symm.trans (@takeWhile_of_starts [dot] _ hstarts (by decide)))
  have htwo : ¬[dot, dot, slash] <+: tail := fun hstarts =>
    hdots (hfirst.symm.trans (@takeWhile_of_starts [dot, dot] _ hstarts (by decide)))
  have hends : tail ≠ [dot] ∧ tail ≠ [dot, dot] := by
    constructor
    · rintro rfl
      exact hdot (hfirst.symm.trans (by decide))
    · rintro rfl
      exact hdots (hfirst.symm.trans (by decide))
  rw [removeDotSegments]
  simp only [List.cons_prefix_cons, hone, htwo, hends, firstSegment, hfirst, List.length_cons,
    List.drop_succ_cons, hdrop, List.cons.injEq, reduceCtorEq, and_false, false_and,
    if_false, or_false, show ¬dot = slash by decide, show ¬slash = dot by decide]

/-- A plain segment at the front is moved to the output. -/
theorem removeDotSegments_front {segment : List UInt8} (h : Plain segment) (hne : segment ≠ [])
    (segments : List (List UInt8)) (output : List UInt8) :
    removeDotSegments output (segment ++ rooted segments) =
      removeDotSegments (output ++ segment) (rooted segments) := by
  obtain ⟨hslash, hdot, hdots⟩ := h
  have hfirst := takeWhile_append_rooted hslash segments
  have hdrop : (segment ++ rooted segments).drop segment.length = rooted segments :=
    List.drop_left ..
  have hsegment : firstSegment (segment ++ rooted segments) = segment := by
    cases segment with
    | nil => exact absurd rfl hne
    | cons b rest =>
      have hb : b ≠ slash := fun heq => hslash (heq ▸ List.mem_cons_self ..)
      rw [List.cons_append, List.takeWhile_cons_of_pos (by simpa using hb)] at hfirst
      exact hfirst
  generalize segment ++ rooted segments = input at hfirst hdrop hsegment ⊢
  have hstart {rest : List UInt8} : ¬slash :: rest <+: input := by
    intro hstarts
    have hnil : [] ++ [slash] <+: input :=
      (List.cons_prefix_cons.mpr ⟨rfl, List.nil_prefix⟩).trans hstarts
    exact hne (hfirst.symm.trans (takeWhile_of_starts hnil List.not_mem_nil))
  have hone : ¬[dot, slash] <+: input := fun hstarts =>
    hdot (hfirst.symm.trans (@takeWhile_of_starts [dot] _ hstarts (by decide)))
  have htwo : ¬[dot, dot, slash] <+: input := fun hstarts =>
    hdots (hfirst.symm.trans (@takeWhile_of_starts [dot, dot] _ hstarts (by decide)))
  have hends : input ≠ [slash, dot] ∧ input ≠ [slash, dot, dot] ∧ input ≠ [dot] ∧
      input ≠ [dot, dot] ∧ input ≠ [] := by
    refine ⟨?_, ?_, ?_, ?_, ?_⟩
    · exact fun heq => @hstart [dot] ⟨[], heq.symm⟩
    · exact fun heq => @hstart [dot, dot] ⟨[], heq.symm⟩
    · rintro rfl
      exact hdot (hfirst.symm.trans (by decide))
    · rintro rfl
      exact hdots (hfirst.symm.trans (by decide))
    · rintro rfl
      exact hne hfirst.symm
  rw [removeDotSegments]
  simp only [hone, htwo, hstart, hends, hsegment, hdrop, if_false, or_false]

/-- A path of plain segments that each follow a slash has no dot segment to remove. -/
theorem removeDotSegments_rooted {segments : List (List UInt8)} (h : ∀ s ∈ segments, Plain s)
    (output : List UInt8) :
    removeDotSegments output (rooted segments) = output ++ rooted segments := by
  induction segments generalizing output with
  | nil =>
    rw [removeDotSegments]
    simp [rooted]
  | cons segment segments ih =>
    have hinput : rooted (segment :: segments) = slash :: (segment ++ rooted segments) := rfl
    rw [hinput, removeDotSegments_slash (h segment (List.mem_cons_self ..)),
      ih fun s hs => h s (List.mem_cons_of_mem _ hs), List.append_assoc, List.cons_append]

/-- **Plain segments stay.** -/
theorem removeDotSegments_join {segments : List (List UInt8)} (h : ∀ s ∈ segments, Plain s)
    (hne : ∀ s ∈ segments, s ≠ []) : removeDotSegments [] (join segments) = join segments := by
  cases segments with
  | nil => exact @removeDotSegments_rooted [] (by simp) []
  | cons segment segments =>
    rw [join_cons, removeDotSegments_front (h segment (List.mem_cons_self ..))
        (hne segment (List.mem_cons_self ..)),
      removeDotSegments_rooted fun s hs => h s (List.mem_cons_of_mem _ hs), List.nil_append]

/-! ### What a server does with a path -/

inductive Step where
  | cut
  | removeDots
  | decode
  deriving DecidableEq, Repr

/-- One step; a malformed escape ends the request. -/
def Step.apply (path : List UInt8) : Step → Option (List UInt8)
  | .cut => some (path.takeWhile fun b => b ≠ question ∧ b ≠ hash)
  | .removeDots => some (removeDotSegments [] path)
  | .decode => ((path.splitOn slash).mapM percentDecode).map join

/-- The path after these steps. -/
def run (steps : List Step) (path : List UInt8) : Option (List UInt8) :=
  steps.foldlM Step.apply path

/-- No step but a decoding changes this path. -/
def Settled (path : List UInt8) : Prop :=
  question ∉ path ∧ hash ∉ path ∧ removeDotSegments [] path = path

theorem run_of_settled {path : List UInt8} (h : Settled path) {steps : List Step}
    (hsteps : .decode ∉ steps) : run steps path = some path := by
  induction steps with
  | nil => rfl
  | cons step steps ih =>
    have hstep : step.apply path = some path := by
      cases step with
      | cut =>
        refine congrArg some (List.takeWhile_eq_self_iff.mpr fun b hb => ?_)
        have hquestion : b ≠ question := fun heq => h.1 (heq ▸ hb)
        have hhash : b ≠ hash := fun heq => h.2.1 (heq ▸ hb)
        simpa using ⟨hquestion, hhash⟩
      | removeDots => exact congrArg some h.2.2
      | decode => exact absurd (List.mem_cons_self ..) hsteps
    unfold run
    rw [List.foldlM_cons, hstep]
    exact ih fun hmem => hsteps (List.mem_cons_of_mem _ hmem)

/-- The segment spells octets among which there is no delimiter, and which are no dot segment. -/
structure Spells (segment decoded : List UInt8) : Prop where
  encodes : Encodes segment decoded
  slash : slash ∉ segment
  nonempty : segment ≠ []
  plain : Plain decoded
  query : question ∉ decoded ∧ hash ∉ decoded

namespace Spells

variable {segment decoded : List UInt8}

theorem plain_segment (h : Spells segment decoded) : Plain segment := by
  refine ⟨h.slash, ?_, ?_⟩
  · rintro rfl
    have hdecoded := percentDecode_of_encodes h.encodes
    rw [show percentDecode [dot] = some [dot] by decide] at hdecoded
    exact h.plain.2.1 (Option.some.inj hdecoded).symm
  · rintro rfl
    have hdecoded := percentDecode_of_encodes h.encodes
    rw [show percentDecode [dot, dot] = some [dot, dot] by decide] at hdecoded
    exact h.plain.2.2 (Option.some.inj hdecoded).symm

theorem query_segment (h : Spells segment decoded) : question ∉ segment ∧ hash ∉ segment :=
  ⟨fun hmem => h.query.1 (h.encodes.mem hmem (by decide) (by decide)),
    fun hmem => h.query.2 (h.encodes.mem hmem (by decide) (by decide))⟩

theorem decoded_nonempty (h : Spells segment decoded) : decoded ≠ [] := by
  rintro rfl
  have hnil : segment = [] := by
    cases h.encodes
    rfl
  exact h.nonempty hnil

end Spells

theorem settled_join {segments : List (List UInt8)} (hplain : ∀ s ∈ segments, Plain s)
    (hne : ∀ s ∈ segments, s ≠ []) (hquery : ∀ s ∈ segments, question ∉ s ∧ hash ∉ s) :
    Settled (join segments) := by
  have hmem {b : UInt8} (hb : b ≠ slash) (hnot : ∀ s ∈ segments, b ∉ s) : b ∉ join segments := by
    cases segments with
    | nil => exact List.not_mem_nil
    | cons segment segments =>
      rw [join_cons, rooted, List.mem_append, List.mem_flatMap]
      rintro (hmem | ⟨s, hs, hmem⟩)
      · exact hnot segment (List.mem_cons_self ..) hmem
      · rcases List.mem_cons.mp hmem with rfl | hmem
        · exact hb rfl
        · exact hnot s (List.mem_cons_of_mem _ hs) hmem
  exact ⟨hmem (by decide) fun s hs => (hquery s hs).1,
    hmem (by decide) fun s hs => (hquery s hs).2, removeDotSegments_join hplain hne⟩

section

variable {pairs : List (List UInt8 × List UInt8)}

theorem decode_join (h : ∀ p ∈ pairs, Spells p.1 p.2) (hne : pairs ≠ []) :
    Step.decode.apply (join (pairs.map Prod.fst)) = some (join (pairs.map Prod.snd)) := by
  have hsplit : (join (pairs.map Prod.fst)).splitOn slash = pairs.map Prod.fst := by
    refine List.splitOn_intercalate slash (fun s hs => ?_) (by simpa using hne)
    obtain ⟨p, hp, rfl⟩ := List.mem_map.mp hs
    exact (h p hp).slash
  have hmap : (pairs.map Prod.fst).mapM percentDecode = some (pairs.map Prod.snd) := by
    clear hsplit hne
    induction pairs with
    | nil => rfl
    | cons p pairs ih =>
      have hfirst := percentDecode_of_encodes (h p (List.mem_cons_self ..)).encodes
      rw [List.map_cons, List.mapM_cons, hfirst, ih fun q hq => h q (List.mem_cons_of_mem _ hq)]
      rfl
  unfold Step.apply
  rw [hsplit, hmap, Option.map_some]

/-- **Every server sees the decoded segments**: whatever steps it takes, in whatever order, with one
decoding among them, the segments of the path that it ends with are the decoded segments. -/
theorem run_of_spells (h : ∀ p ∈ pairs, Spells p.1 p.2) (hne : pairs ≠ []) {steps : List Step}
    (hsteps : steps.count .decode = 1) :
    (run steps (join (pairs.map Prod.fst))).map (·.splitOn slash) = some (pairs.map Prod.snd) := by
  have hencoded : Settled (join (pairs.map Prod.fst)) := by
    apply settled_join
    all_goals
      intro s hs
      obtain ⟨p, hp, rfl⟩ := List.mem_map.mp hs
    · exact (h p hp).plain_segment
    · exact (h p hp).nonempty
    · exact (h p hp).query_segment
  have hdecoded : Settled (join (pairs.map Prod.snd)) := by
    apply settled_join
    all_goals
      intro s hs
      obtain ⟨p, hp, rfl⟩ := List.mem_map.mp hs
    · exact (h p hp).plain
    · exact (h p hp).decoded_nonempty
    · exact (h p hp).query
  -- the steps before the decoding, and those after it
  have hmem : .decode ∈ steps := List.count_pos_iff.mp (by omega)
  obtain ⟨before, after, rfl⟩ := List.append_of_mem hmem
  rw [List.count_append, List.count_cons_self] at hsteps
  have hbefore : .decode ∉ before := List.count_eq_zero.mp (by omega)
  have hafter : .decode ∉ after := List.count_eq_zero.mp (by omega)
  have hrun : run (before ++ .decode :: after) (join (pairs.map Prod.fst)) =
      some (join (pairs.map Prod.snd)) := by
    have hfirst := run_of_settled hencoded hbefore
    have hlast := run_of_settled hdecoded hafter
    unfold run at hfirst hlast ⊢
    rw [List.foldlM_append, hfirst]
    show List.foldlM Step.apply _ (Step.decode :: after) = _
    rw [List.foldlM_cons, decode_join h hne]
    exact hlast
  rw [hrun, Option.map_some]
  refine congrArg some (List.splitOn_intercalate slash (fun s hs => ?_) (by simpa using hne))
  obtain ⟨p, hp, rfl⟩ := List.mem_map.mp hs
  exact (h p hp).plain.1

end

end Ostrich.UriPath
