import Ostrich.Common.ProxyPath
import Ostrich.Lib.Outcome

/-!
# What the reverse proxies forward

* `validateBackendPath_iff`: the accepted paths are those that name the service and then only
  segments that spell something without delimiters and control characters, and every server that
  gets the remainder sees what the segments spell.
-/

namespace Ostrich.Common.ProxyPath

open UriPath

/-! ### Percent-decoding -/

theorem hex_lt {b value : UInt8} (h : hex b = some value) : value.toNat < 16 := by
  have hall : ∀ n < 256, ∀ value, hex (UInt8.ofNat n) = some value → value.toNat < 16 := by
    decide +kernel
  exact hall b.toNat b.toNat_lt value (by rw [UInt8.ofNat_toNat]; exact h)

/-- The two digits of an escape do not overlap. -/
theorem shift_or {hi lo hiValue loValue : UInt8} (hhi : hex hi = some hiValue)
    (hlo : hex lo = some loValue) : (hiValue <<< 4) ||| loValue = hiValue * 16 + loValue := by
  have hall : ∀ m < 16, ∀ n < 16, (UInt8.ofNat m <<< 4) ||| UInt8.ofNat n =
      UInt8.ofNat m * 16 + UInt8.ofNat n := by
    decide +kernel
  have heq := hall _ (hex_lt hhi) _ (hex_lt hlo)
  rwa [UInt8.ofNat_toNat, UInt8.ofNat_toNat] at heq

theorem decodeLoop_eq (out segment : List UInt8) :
    decodeLoop out segment =
      match percentDecode segment with
      | some decoded => .ok (out ++ decoded)
      | none => .error .MalformedPercentEncoding := by
  fun_induction percentDecode segment generalizing out with
  | case1 => simp [decodeLoop]
  | case2 hi lo rest hiValue loValue hlo hhi ih =>
    unfold decodeLoop
    rw [if_pos rfl]
    simp only [hhi, hlo, ih, shift_or hhi hlo]
    cases percentDecode rest with
    | none => rfl
    | some decoded => simp
  | case3 hi lo rest hnone =>
    unfold decodeLoop
    rw [if_pos rfl]
    dsimp only
    split
    · exact absurd ‹_› (hnone _ _ ‹_›)
    · rfl
  | case4 bytes hshort =>
    unfold decodeLoop
    rw [if_pos rfl]
    split
    · exact absurd rfl (hshort _ _ _)
    · rfl
  | case5 b bytes hb ih =>
    unfold decodeLoop
    rw [if_neg hb, ih]
    cases percentDecode bytes with
    | none => rfl
    | some decoded => simp

theorem percentDecodeSegment_iff {segment decoded : List UInt8} :
    percentDecodeSegment segment = .ok decoded ↔ Encodes segment decoded := by
  unfold percentDecodeSegment
  rw [decodeLoop_eq, ← percentDecode_iff]
  cases percentDecode segment with
  | none => simp
  | some decoded' => simp

/-! ### Segments -/

/-- No control character (C0 or DEL) and no backslash. -/
def Clean (decoded : List UInt8) : Prop :=
  backslash ∉ decoded ∧ ∀ b ∈ decoded, ¬(b ≤ 0x1F ∨ b = 0x7F)

/-- The segment is not empty and spells, in well-formed percent-encoding, something that is not a
dot segment and has no delimiter and no control character. -/
def Accepted (segment decoded : List UInt8) : Prop := Spells segment decoded ∧ Clean decoded

theorem octetRejection_eq_none {b : UInt8} :
    octetRejection b = none ↔
      b ≠ slash ∧ b ≠ question ∧ b ≠ hash ∧ b ≠ backslash ∧ ¬(b ≤ 0x1F ∨ b = 0x7F) := by
  unfold octetRejection
  split_ifs with hdelimiter hcontrol
  · simp only [false_iff]
    rintro ⟨hslash, hquestion, hhash, hbackslash, -⟩
    rcases hdelimiter with h | h | h | h
    · exact hslash h
    · exact hquestion h
    · exact hhash h
    · exact hbackslash h
  · simp only [false_iff]
    exact fun h => h.2.2.2.2 hcontrol
  · simp only [not_or] at hdelimiter
    exact ⟨fun _ => ⟨hdelimiter.1, hdelimiter.2.1, hdelimiter.2.2.1, hdelimiter.2.2.2, hcontrol⟩,
      fun _ => rfl⟩

/-- The octets of a decoded segment are all right. -/
theorem findSome?_octetRejection {decoded : List UInt8} :
    decoded.findSome? octetRejection = none ↔
      (slash ∉ decoded ∧ question ∉ decoded ∧ hash ∉ decoded) ∧ Clean decoded := by
  rw [List.findSome?_eq_none_iff]
  constructor
  · intro h
    have hb (b : UInt8) (hmem : b ∈ decoded) := octetRejection_eq_none.mp (h b hmem)
    exact ⟨⟨fun hmem => (hb _ hmem).1 rfl, fun hmem => (hb _ hmem).2.1 rfl,
      fun hmem => (hb _ hmem).2.2.1 rfl⟩, fun hmem => (hb _ hmem).2.2.2.1 rfl,
      fun b hmem => (hb b hmem).2.2.2.2⟩
  · rintro ⟨⟨hslash, hquestion, hhash⟩, hbackslash, hcontrol⟩ b hmem
    rw [octetRejection_eq_none]
    exact ⟨fun heq => hslash (heq ▸ hmem), fun heq => hquestion (heq ▸ hmem),
      fun heq => hhash (heq ▸ hmem), fun heq => hbackslash (heq ▸ hmem), hcontrol b hmem⟩

/-- The check of a segment of a path. -/
theorem checkSegment_iff {segment : List UInt8} (hslash : slash ∉ segment) :
    checkSegment segment = .ok () ↔ ∃ decoded, Accepted segment decoded := by
  unfold checkSegment
  by_cases hempty : segment.isEmpty = true
  · rw [if_pos hempty]
    simp only [reduceCtorEq, false_iff]
    rintro ⟨decoded, hspells, -⟩
    exact hspells.nonempty (List.isEmpty_iff.mp hempty)
  · rw [if_neg hempty]
    have hnonempty : segment ≠ [] := fun heq => hempty (List.isEmpty_iff.mpr heq)
    cases hdecode : percentDecodeSegment segment with
    | error e =>
      simp only [reduceCtorEq, false_iff, bind, Except.bind]
      rintro ⟨decoded, hspells, -⟩
      rw [percentDecodeSegment_iff.mpr hspells.encodes] at hdecode
      cases hdecode
    | ok decoded =>
      have hencodes := percentDecodeSegment_iff.mp hdecode
      have hunique {other : List UInt8} (h : Accepted segment other) : other = decoded := by
        have hother := percentDecodeSegment_iff.mpr h.1.encodes
        rw [hdecode] at hother
        exact (Except.ok.inj hother).symm
      show (if decoded = [dot] ∨ decoded = [dot, dot] then _ else _) = _ ↔ _
      by_cases hdots : decoded = [dot] ∨ decoded = [dot, dot]
      · rw [if_pos hdots]
        simp only [reduceCtorEq, false_iff]
        rintro ⟨other, h⟩
        rw [hunique h] at h
        exact hdots.elim h.1.plain.2.1 h.1.plain.2.2
      · rw [if_neg hdots]
        rw [not_or] at hdots
        cases hfind : decoded.findSome? octetRejection with
        | some e =>
          simp only [reduceCtorEq, false_iff]
          rintro ⟨other, h⟩
          rw [hunique h] at h
          rw [findSome?_octetRejection.mpr ⟨⟨h.1.plain.1, h.1.query⟩, h.2⟩] at hfind
          cases hfind
        | none =>
          obtain ⟨⟨hplain, hquery⟩, hclean⟩ := findSome?_octetRejection.mp hfind
          exact ⟨fun _ => ⟨decoded, ⟨hencodes, hslash, hnonempty, ⟨hplain, hdots⟩, hquery⟩, hclean⟩,
            fun _ => rfl⟩

/-! ### Paths -/

theorem stripPrefix_eq_some {p s rest : List UInt8} :
    stripPrefix p s = some rest ↔ s = p ++ rest := by
  unfold stripPrefix
  split_ifs with h
  · obtain ⟨tail, rfl⟩ := h
    rw [List.drop_left, Option.some.injEq, List.append_cancel_left_eq]
  · simp only [false_iff]
    rintro rfl
    exact h (List.prefix_append ..)

theorem forM_checkSegment {segments : List (List UInt8)} (h : ∀ s ∈ segments, slash ∉ s) :
    segments.forM checkSegment = .ok () ↔ ∃ pairs : List (List UInt8 × List UInt8),
      pairs.map Prod.fst = segments ∧ ∀ p ∈ pairs, Accepted p.1 p.2 := by
  induction segments with
  | nil => exact ⟨fun _ => ⟨[], rfl, by simp⟩, fun _ => rfl⟩
  | cons segment segments ih =>
    have hrest := ih fun s hs => h s (List.mem_cons_of_mem _ hs)
    have hfirst := checkSegment_iff (h segment (List.mem_cons_self ..))
    have hcons : (segment :: segments).forM checkSegment =
        (checkSegment segment >>= fun _ => segments.forM checkSegment) := rfl
    rw [hcons]
    constructor
    · intro hok
      obtain ⟨_, hsegment, hok⟩ := bind_eq_ok hok
      obtain ⟨decoded, hdecoded⟩ := hfirst.mp hsegment
      obtain ⟨pairs, rfl, hpairs⟩ := hrest.mp hok
      refine ⟨(segment, decoded) :: pairs, rfl, fun p hp => ?_⟩
      rcases List.mem_cons.mp hp with rfl | hp
      · exact hdecoded
      · exact hpairs p hp
    · rintro ⟨pairs, hpairs, haccepted⟩
      cases pairs with
      | nil => cases hpairs
      | cons p pairs =>
        rw [List.map_cons, List.cons.injEq] at hpairs
        obtain ⟨rfl, rfl⟩ := hpairs
        have hsegment := hfirst.mpr ⟨p.2, haccepted p (List.mem_cons_self ..)⟩
        rw [hsegment]
        exact hrest.mpr ⟨pairs, rfl, fun q hq => haccepted q (List.mem_cons_of_mem _ hq)⟩

/-- The path is `/svc/` or `/api/svc/` and then `rest`. -/
def Names (rawPath svc rest : List UInt8) : Prop :=
  rawPath = slash :: svc ++ slash :: rest ∨ rawPath = apiPrefix ++ slash :: svc ++ slash :: rest

/-- `rest` is a list of accepted segments, separated by slashes, that spell these octets. -/
def SpellsPath (rest : List UInt8) (decoded : List (List UInt8)) : Prop :=
  ∃ pairs : List (List UInt8 × List UInt8), pairs ≠ [] ∧ rest = join (pairs.map Prod.fst) ∧
    decoded = pairs.map Prod.snd ∧ ∀ p ∈ pairs, Accepted p.1 p.2

/-- What is left of the path after the prefix. -/
theorem names_iff {rawPath svc : List UInt8} (hsvc : slash ∉ svc) (hapi : svc ≠ apiPrefix.tail)
    (rest : List UInt8) :
    ((stripPrefix [slash] (((stripPrefix apiPrefix rawPath).filter fun r => [slash] <+: r).getD
        rawPath)).bind fun r => (stripPrefix svc r).bind (stripPrefix [slash])) = some rest ↔
      Names rawPath svc rest := by
  have hservice (path : List UInt8) : ((stripPrefix [slash] path).bind fun r =>
      (stripPrefix svc r).bind (stripPrefix [slash])) = some rest ↔
        path = slash :: svc ++ slash :: rest := by
    simp only [Option.bind_eq_some_iff, stripPrefix_eq_some]
    constructor
    · rintro ⟨r, rfl, r', rfl, rfl⟩
      simp
    · rintro rfl
      exact ⟨_, rfl, _, rfl, rfl⟩
  rw [hservice]
  unfold Names
  by_cases hmount : ∃ r, rawPath = apiPrefix ++ slash :: r
  · obtain ⟨r, rfl⟩ := hmount
    have hstrip : stripPrefix apiPrefix (apiPrefix ++ slash :: r) = some (slash :: r) :=
      stripPrefix_eq_some.mpr rfl
    have hslash : [slash] <+: slash :: r := List.cons_prefix_cons.mpr ⟨rfl, List.nil_prefix⟩
    rw [hstrip, Option.filter_some, if_pos (by simpa using hslash), Option.getD_some,
      List.append_assoc, List.append_cancel_left_eq]
    refine ⟨.inr, fun h => h.resolve_left fun heq => hapi ?_⟩
    -- both are what stands before the second slash
    have htail : svc ++ slash :: rest = apiPrefix.tail ++ slash :: r :=
      (List.cons.inj heq).2.symm
    have hfirst : (svc ++ slash :: rest).takeWhile (· ≠ slash) = svc :=
      takeWhile_of_starts ⟨rest, by simp⟩ hsvc
    have hsecond : (apiPrefix.tail ++ slash :: r).takeWhile (· ≠ slash) = apiPrefix.tail :=
      takeWhile_of_starts ⟨r, by simp⟩ (by decide)
    rw [← hfirst, htail, hsecond]
  · have hnone : (stripPrefix apiPrefix rawPath).filter (fun r => [slash] <+: r) = none := by
      rw [Option.filter_eq_none_iff]
      intro r hr hslash
      obtain ⟨tail, rfl⟩ := of_decide_eq_true hslash
      exact hmount ⟨tail, stripPrefix_eq_some.mp hr⟩
    rw [hnone, Option.getD_none]
    refine ⟨.inl, fun h => h.resolve_right fun heq => hmount ⟨svc ++ slash :: rest, ?_⟩⟩
    rw [heq, List.append_assoc, List.cons_append]

/-- The remainder is accepted if it is a list of accepted segments. -/
theorem forM_splitOn_iff (rest : List UInt8) :
    (rest.splitOn slash).forM checkSegment = .ok () ↔ ∃ decoded, SpellsPath rest decoded := by
  rw [forM_checkSegment fun s hs => slash_not_mem hs]
  constructor
  · rintro ⟨pairs, hpairs, haccepted⟩
    refine ⟨_, pairs, ?_, ?_, rfl, haccepted⟩
    · rintro rfl
      exact List.splitOn_ne_nil slash rest hpairs.symm
    · rw [hpairs]
      exact (List.intercalate_splitOn slash).symm
  · rintro ⟨decoded, pairs, hne, rfl, rfl, haccepted⟩
    refine ⟨pairs, (List.splitOn_intercalate slash (fun s hs => ?_) (by simpa using hne)).symm,
      haccepted⟩
    obtain ⟨p, hp, rfl⟩ := List.mem_map.mp hs
    exact (haccepted p hp).1.slash

/-- **The proxy path cannot be steered.**  A path is accepted exactly if it names the service and
then spells a list of segments; what is forwarded is the remainder, unchanged; and whatever a server
does with it, in whatever order, with one decoding, it sees the segments that it spells. -/
theorem validateBackendPath_iff {svc : List UInt8} (hsvc : slash ∉ svc)
    (hapi : svc ≠ apiPrefix.tail) (rawPath rest : List UInt8) :
    (validateBackendPath rawPath svc = .ok rest ↔
        Names rawPath svc rest ∧ ∃ decoded, SpellsPath rest decoded) ∧
      ∀ decoded, SpellsPath rest decoded → ∀ steps : List Step, steps.count .decode = 1 →
        (run steps rest).map (·.splitOn slash) = some decoded := by
  constructor
  · have hstarts := @names_iff rawPath _ hsvc hapi
    unfold validateBackendPath
    dsimp only
    generalize (stripPrefix [slash] _).bind _ = found at hstarts ⊢
    cases found with
    | none =>
      simp only [reduceCtorEq, false_iff]
      exact fun h => by simpa using (hstarts rest).mpr h.1
    | some rest' =>
      have hforM := forM_splitOn_iff rest'
      constructor
      · intro h
        obtain ⟨_, hok, hrest⟩ := bind_eq_ok h
        obtain rfl := Except.ok.inj hrest
        exact ⟨(hstarts rest').mp rfl, hforM.mp hok⟩
      · rintro ⟨hnames, hspells⟩
        obtain rfl := Option.some.inj ((hstarts rest).mpr hnames)
        show (((rest'.splitOn slash).forM checkSegment) >>= fun _ => .ok rest') = .ok rest'
        rw [hforM.mpr hspells]
        rfl
  · rintro decoded ⟨pairs, hne, rfl, rfl, haccepted⟩ steps hsteps
    exact run_of_spells (fun p hp => (haccepted p hp).1) hne hsteps

/-- The path `/ca/a%20b` of the service `ca`. -/
theorem validateBackendPath_iff_ca :
    let ca : List UInt8 := [0x63, 0x61]
    let rest : List UInt8 := [0x61, percent, 0x32, 0x30, 0x62]
    (validateBackendPath (slash :: ca ++ slash :: rest) ca = .ok rest ↔
        Names (slash :: ca ++ slash :: rest) ca rest ∧ ∃ decoded, SpellsPath rest decoded) ∧
      ∀ decoded, SpellsPath rest decoded → ∀ steps : List Step, steps.count .decode = 1 →
        (run steps rest).map (·.splitOn slash) = some decoded :=
  validateBackendPath_iff (by decide) (by decide) _ _

/-- A service path, the same path below `/api`, and two attempts to leave the service. -/
example :
    let ca : List UInt8 := [0x63, 0x61]
    validateBackendPath (slash :: ca ++ [slash, 0x78]) ca = .ok [0x78] ∧
      validateBackendPath (apiPrefix ++ slash :: ca ++ [slash, 0x78]) ca = .ok [0x78] ∧
      validateBackendPath (slash :: ca ++ [slash, percent, 0x32, 0x65, percent, 0x32, 0x45]) ca =
        .error .DotSegment ∧
      validateBackendPath (slash :: ca ++ [slash, 0x78, slash]) ca = .error .EmptySegment := by
  decide +kernel

end Ostrich.Common.ProxyPath
