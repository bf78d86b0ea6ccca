import Ostrich.Acme.Validation
import Mathlib.Tactic.FinCases
import Mathlib.Tactic.NormNum

/-!
# HTTP-01 validation connects to public addresses

* `connects_to_public`: every address that the validator connects to is globally reachable exactly
  if no answer of the resolver that it connects by starts with an address that the deny list misses
  (`missed`);
* `connects_to_benchmarking`: an address in `198.18.0.0/15`.
-/

namespace Ostrich.Acme

open Net

/-! ### The property -/

/-- A globally reachable address: in no special-purpose block that is not, and if an IPv4 address is
embedded in it, that is none either and not on the deny list. -/
def PublicTarget : IpAddr → Prop
  | .v4 a => reachableV4 a = true
  | .v6 a => reachableV6 a = true ∧
      ∀ e, embedded a = some e → reachableV4 e = true ∧ isDisallowedV4 e = false

/-- Benchmarking addresses and the relay of 6a44. -/
def missedV4 (a : Ipv4Addr) : Bool :=
  (v4Block 198 18 0 0 15).contains a.toNat || (v4Block 192 88 99 2 32).contains a.toNat

/-- The IPv6 blocks that the deny list does not have. -/
def missedBlocks : List Block :=
  [v6Block 0x64 0xff9b 1 0 48, v6Block 0x100 0 0 0 64, v6Block 0x100 0 0 1 64,
    v6Block 0x2001 0 0 0 23, v6Block 0x2001 2 0 0 48, v6Block 0x2001 0xdb8 0 0 32,
    v6Block 0x3fff 0 0 0 20, v6Block 0x5f00 0 0 0 16]

/-- What the deny list misses. -/
def missed : IpAddr → Bool
  | .v4 a => missedV4 a
  | .v6 a =>
    (missedBlocks.any (·.contains a.toNat) && !globalV6.any (·.contains a.toNat))
      || (embedded a).any fun e => missedV4 e || isDisallowedV4 e

/-! ### The deny list -/

/-- What is not on the deny list, in octets. -/
structure Allowed (a : Ipv4Addr) : Prop where
  first : a.octet 0 ≠ 0 ∧ a.octet 0 ≠ 10 ∧ a.octet 0 ≠ 127 ∧ a.octet 0 < 224
  shared : a.octet 0 = 100 → a.octet 1 < 64 ∨ 128 ≤ a.octet 1
  linkLocal : a.octet 0 = 169 → a.octet 1 ≠ 254
  privateUse : a.octet 0 = 172 → a.octet 1 < 16 ∨ 31 < a.octet 1
  protocol : a.octet 0 = 192 → a.octet 1 ≠ 168 ∧ (a.octet 1 = 0 → a.octet 2 ≠ 0 ∧ a.octet 2 ≠ 2)
  documentation₂ : a.octet 0 = 198 → a.octet 1 = 51 → a.octet 2 ≠ 100
  documentation₃ : a.octet 0 = 203 → a.octet 1 = 0 → a.octet 2 ≠ 113

theorem allowed_of_not_disallowed {a : Ipv4Addr} (h : isDisallowedV4 a = false) : Allowed a := by
  unfold isDisallowedV4 at h
  simp only [Bool.or_eq_false_iff] at h
  obtain ⟨⟨⟨⟨⟨⟨⟨⟨⟨⟨-, hloopback⟩, hprivate⟩, hlink⟩, -⟩, hdocumentation⟩, hmulticast⟩,
    hzero⟩, hshared⟩,
    hprotocol⟩, hreserved⟩ := h
  unfold Ipv4Addr.isLoopback at hloopback
  unfold Ipv4Addr.isPrivate at hprivate
  unfold Ipv4Addr.isLinkLocal at hlink
  unfold Ipv4Addr.isDocumentation at hdocumentation
  unfold Ipv4Addr.isMulticast at hmulticast
  simp only [Bool.or_eq_false_iff, Bool.and_eq_false_iff, decide_eq_false_iff_not] at *
  refine ⟨?_, ?_, ?_, ?_, ?_, ?_, ?_⟩
  · clear hdocumentation hshared hprotocol hlink
    omega
  · clear hdocumentation hprivate hprotocol hlink
    omega
  · clear hdocumentation hprivate hprotocol hshared
    omega
  · clear hdocumentation hlink hprotocol hshared
    omega
  · clear hlink hshared
    omega
  · clear hlink hprotocol hshared hprivate
    omega
  · clear hlink hprotocol hshared hprivate
    omega

/-- A block, in octets. -/
theorem octets_of_contains {a : Ipv4Addr} {b₀ b₁ b₂ b₃ len : ℕ}
    (h : (v4Block b₀ b₁ b₂ b₃ len).contains a.toNat = true) :
    (((a.octet 0 * 256 + a.octet 1) * 256 + a.octet 2) * 256 + a.octet 3) / 2 ^ (32 - len)
      = (((b₀ * 256 + b₁) * 256 + b₂) * 256 + b₃) / 2 ^ (32 - len) := Block.contains_iff.mp h

/-- The deny list has all other IPv4 blocks. -/
theorem not_contains_of_allowed {a : Ipv4Addr} (h : isDisallowedV4 a = false) {b : Block}
    (hb : b ∈ notGlobalV4) (hcontains : b.contains a.toNat = true) : missedV4 a = true := by
  have hallowed := allowed_of_not_disallowed h
  obtain ⟨hzero, hten, hloopback, hhigh⟩ := hallowed.first
  have h1 := a.octet_lt 1
  have h2 := a.octet_lt 2
  have h3 := a.octet_lt 3
  simp only [notGlobalV4, List.mem_cons, List.not_mem_nil, or_false] at hb
  unfold missedV4
  rw [Bool.or_eq_true]
  rcases hb with rfl | rfl | rfl | rfl | rfl | rfl | rfl | rfl | rfl | rfl | rfl | rfl | rfl | rfl |
    rfl
  · have heq := octets_of_contains hcontains
    norm_num at heq
    omega
  · have heq := octets_of_contains hcontains
    norm_num at heq
    omega
  · have heq := octets_of_contains hcontains
    norm_num at heq
    have hshared := hallowed.shared
    omega
  · have heq := octets_of_contains hcontains
    norm_num at heq
    omega
  · have heq := octets_of_contains hcontains
    norm_num at heq
    have hlink := hallowed.linkLocal
    omega
  · have heq := octets_of_contains hcontains
    norm_num at heq
    have hprivate := hallowed.privateUse
    omega
  · have heq := octets_of_contains hcontains
    norm_num at heq
    have hprotocol := hallowed.protocol
    omega
  · have heq := octets_of_contains hcontains
    norm_num at heq
    have hprotocol := hallowed.protocol
    omega
  · exact .inr hcontains
  · have heq := octets_of_contains hcontains
    norm_num at heq
    have hprotocol := hallowed.protocol
    omega
  · exact .inl hcontains
  · have heq := octets_of_contains hcontains
    norm_num at heq
    have hdocumentation := hallowed.documentation₂
    omega
  · have heq := octets_of_contains hcontains
    norm_num at heq
    have hdocumentation := hallowed.documentation₃
    omega
  · have heq := octets_of_contains hcontains
    norm_num at heq
    omega
  · have heq := octets_of_contains hcontains
    norm_num at heq
    omega

/-- An IPv4 address that is not on the deny list is reachable, or missed. -/
theorem reachableV4_iff {a : Ipv4Addr} (h : isDisallowedV4 a = false) :
    reachableV4 a = true ↔ missedV4 a = false := by
  have hprotocol := (allowed_of_not_disallowed h).protocol
  have h3 := a.octet_lt 3
  have hglobal : globalV4.any (·.contains a.toNat) = false := by
    rw [List.any_eq_false]
    intro b hb hcontains
    simp only [globalV4, List.mem_cons, List.not_mem_nil, or_false] at hb
    have h1 := a.octet_lt 1
    have h2 := a.octet_lt 2
    rcases hb with rfl | rfl
    all_goals
      simp only [Block.contains_iff, v4Block, Ipv4Addr.toNat, Nat.reduceSub, Nat.reducePow,
        Nat.reduceMul, Nat.reduceAdd, Nat.div_one] at hcontains
      omega
  unfold reachableV4
  rw [hglobal, Bool.or_false, Bool.not_eq_true', List.any_eq_false]
  constructor
  · intro hnone
    unfold missedV4
    rw [Bool.or_eq_false_iff]
    exact ⟨Bool.eq_false_iff.mpr (hnone _ (by simp [notGlobalV4])),
      Bool.eq_false_iff.mpr (hnone _ (by simp [notGlobalV4]))⟩
  · intro hmissed b hb hcontains
    rw [not_contains_of_allowed h hb hcontains] at hmissed
    cases hmissed

/-- The IPv4 part of a mapped address is embedded in it. -/
theorem embedded_of_mapped {a : Ipv6Addr} {e : Ipv4Addr} (h : toIpv4Mapped a = some e) :
    embedded a = some e := by
  unfold toIpv4Mapped at h
  split_ifs at h with hmapped
  obtain ⟨hzero, hlast⟩ := hmapped
  have hseg (i : Fin 5) : a.segment (i.castLE (by decide)) = 0 := congrArg UInt16.toNat (hzero i)
  have hfront : [a.segment 0, a.segment 1, a.segment 2, a.segment 3, a.segment 4, a.segment 5]
      = [0, 0, 0, 0, 0, 0xffff] := by
    rw [show a.segment 0 = 0 from hseg 0, show a.segment 1 = 0 from hseg 1,
      show a.segment 2 = 0 from hseg 2, show a.segment 3 = 0 from hseg 3,
      show a.segment 4 = 0 from hseg 4, show a.segment 5 = 0xffff from congrArg UInt16.toNat hlast]
  unfold embedded
  dsimp only
  rw [if_pos (.inl hfront)]
  exact h

/-- What is not on the deny list, in segments: a mapped address, or none of these. -/
theorem segments_of_allowed {a : Ipv6Addr} (h : isDisallowedIp (.v6 a) = false) :
    (∃ e, toIpv4Mapped a = some e ∧ isDisallowedV4 e = false) ∨
      a.toNat ≠ 0 ∧ a.toNat ≠ 1 ∧ a.segment 0 / 512 ≠ 126 ∧ a.segment 0 / 64 ≠ 1018 := by
  unfold isDisallowedIp at h
  dsimp only at h
  cases hmapped : toIpv4Mapped a with
  | some e =>
    rw [hmapped] at h
    exact .inl ⟨e, rfl, h⟩
  | none =>
    rw [hmapped] at h
    right
    simp only [Bool.or_eq_false_iff, decide_eq_false_iff_not] at h
    obtain ⟨⟨⟨⟨hunspecified, hloopback⟩, -⟩, hlocal⟩, hlink⟩ := h
    rw [and_segment (n := 7) (k := 9) rfl rfl] at hlocal
    rw [and_segment (n := 10) (k := 6) rfl rfl] at hlink
    have hzero (hsum : a.toNat < 65536) : ∀ i : Fin 7, a.segments (i.castLE (by decide)) = 0 := by
      have hall : a.segment 0 = 0 ∧ a.segment 1 = 0 ∧ a.segment 2 = 0 ∧ a.segment 3 = 0 ∧
          a.segment 4 = 0 ∧ a.segment 5 = 0 ∧ a.segment 6 = 0 := by
        unfold Ipv6Addr.toNat at hsum
        omega
      intro i
      refine UInt16.toNat_inj.mp ?_
      fin_cases i
      · exact hall.1
      · exact hall.2.1
      · exact hall.2.2.1
      · exact hall.2.2.2.1
      · exact hall.2.2.2.2.1
      · exact hall.2.2.2.2.2.1
      · exact hall.2.2.2.2.2.2
    have hlast (hsum : a.toNat < 65536) : (a.segments 7).toNat = a.toNat := by
      show a.segment 7 = a.toNat
      unfold Ipv6Addr.toNat at hsum ⊢
      omega
    refine ⟨fun hnum => ?_, fun hnum => ?_, fun heq => ?_, fun heq => ?_⟩
    · have hseven : a.segments 7 = 0 := UInt16.toNat_inj.mp ((hlast (by omega)).trans hnum)
      have htrue : a.isUnspecified = true := by
        refine decide_eq_true fun i => ?_
        by_cases hi : i.val < 7
        · exact hzero (by omega) ⟨i.val, hi⟩
        · obtain rfl : i = 7 := by omega
          exact hseven
      rw [hunspecified] at htrue
      cases htrue
    · have hseven : a.segments 7 = 1 := UInt16.toNat_inj.mp ((hlast (by omega)).trans hnum)
      have htrue : a.isLoopback = true := decide_eq_true ⟨hzero (by omega), hseven⟩
      rw [hloopback] at htrue
      cases htrue
    · change ¬a.segment 0 / 2 ^ 9 * 2 ^ 9 = 64512 at hlocal
      omega
    · change ¬a.segment 0 / 2 ^ 6 * 2 ^ 6 = 65152 at hlink
      omega

/-- A prefix, in segments. -/
theorem segments_of_contains {a : Ipv6Addr} {b₀ b₁ b₂ b₃ len : ℕ}
    (h : (v6Block b₀ b₁ b₂ b₃ len).contains a.toNat = true) :
    a.toNat / 2 ^ (128 - len)
      = (((b₀ * 65536 + b₁) * 65536 + b₂) * 65536 + b₃) * 2 ^ 64 / 2 ^ (128 - len) :=
  Block.contains_iff.mp h

/-- The deny list has all other IPv6 blocks. -/
theorem missedBlocks_of_allowed {a : Ipv6Addr} (h : isDisallowedIp (.v6 a) = false) {b : Block}
    (hb : b ∈ notGlobalV6) (hcontains : b.contains a.toNat = true) : b ∈ missedBlocks := by
  have hnot : a.toNat ≠ 0 ∧ a.toNat ≠ 1 ∧ a.segment 0 / 512 ≠ 126 ∧ a.segment 0 / 64 ≠ 1018 := by
    rcases segments_of_allowed h with ⟨e, hmapped, -⟩ | hnot
    · unfold toIpv4Mapped at hmapped
      split_ifs at hmapped with hzero
      have h0 : a.segment 0 = 0 := congrArg UInt16.toNat (hzero.1 0)
      have h5 : a.segment 5 = 65535 := congrArg UInt16.toNat hzero.2
      unfold Ipv6Addr.toNat
      omega
    · exact hnot
  obtain ⟨hunspecified, hloopback, hlocal, hlink⟩ := hnot
  have hsplit : ∃ rest < 2 ^ 112, a.toNat = a.segment 0 * 2 ^ 112 + rest := by
    refine ⟨a.toNat - a.segment 0 * 2 ^ 112, ?_, ?_⟩
    · have h1 := a.segment_lt 1
      have h2 := a.segment_lt 2
      have h3 := a.segment_lt 3
      have h4 := a.segment_lt 4
      have h5 := a.segment_lt 5
      have h6 := a.segment_lt 6
      have h7 := a.segment_lt 7
      unfold Ipv6Addr.toNat
      omega
    · unfold Ipv6Addr.toNat
      omega
  obtain ⟨rest, hrest, hsum⟩ := hsplit
  simp only [notGlobalV6, List.mem_cons, List.not_mem_nil, or_false] at hb
  rcases hb with rfl | rfl | rfl | rfl | rfl | rfl | rfl | rfl | rfl | rfl | rfl | rfl
  · have heq := Block.contains_iff.mp hcontains
    norm_num at heq
    omega
  · have heq := Block.contains_iff.mp hcontains
    norm_num at heq
    omega
  · simp [missedBlocks]
  · simp [missedBlocks]
  · simp [missedBlocks]
  · simp [missedBlocks]
  · simp [missedBlocks]
  · simp [missedBlocks]
  · simp [missedBlocks]
  · simp [missedBlocks]
  · have heq := segments_of_contains hcontains
    norm_num at heq
    omega
  · have heq := segments_of_contains hcontains
    norm_num at heq
    omega

theorem reachableV6_iff {a : Ipv6Addr} (h : isDisallowedIp (.v6 a) = false) :
    reachableV6 a = true ↔
      (missedBlocks.any (·.contains a.toNat) && !globalV6.any (·.contains a.toNat)) = false := by
  have hany : notGlobalV6.any (·.contains a.toNat) = missedBlocks.any (·.contains a.toNat) := by
    rw [Bool.eq_iff_iff, List.any_eq_true, List.any_eq_true]
    constructor
    · rintro ⟨b, hb, hcontains⟩
      exact ⟨b, missedBlocks_of_allowed h hb hcontains, hcontains⟩
    · rintro ⟨b, hb, hcontains⟩
      refine ⟨b, ?_, hcontains⟩
      simp only [missedBlocks, List.mem_cons, List.not_mem_nil, or_false] at hb
      rcases hb with rfl | rfl | rfl | rfl | rfl | rfl | rfl | rfl <;> simp [notGlobalV6]
  unfold reachableV6
  rw [hany]
  cases missedBlocks.any (·.contains a.toNat) <;> cases globalV6.any (·.contains a.toNat) <;> simp

/-- **An address that the deny list lets through is public unless the list misses it.** -/
theorem publicTarget_iff {ip : IpAddr} (h : isDisallowedIp ip = false) :
    PublicTarget ip ↔ missed ip = false := by
  cases ip with
  | v4 a => exact reachableV4_iff h
  | v6 a =>
    unfold PublicTarget missed
    dsimp only
    rw [reachableV6_iff h, Bool.or_eq_false_iff]
    refine and_congr Iff.rfl ?_
    cases hembedded : embedded a with
    | none => simp
    | some e =>
      rw [Option.any_some, Bool.or_eq_false_iff]
      constructor
      · intro hall
        obtain ⟨hreachable, hallowed⟩ := hall e rfl
        exact ⟨(reachableV4_iff hallowed).mp hreachable, hallowed⟩
      · rintro ⟨hmissed, hallowed⟩ e' heq
        obtain rfl := Option.some.inj heq
        exact ⟨(reachableV4_iff hallowed).mpr hmissed, hallowed⟩

/-! ### Runs -/

/-- The address that a hop connects to: the first of an answer that has none on the deny list. -/
theorem resolvePublic_eq_ok {host : String} {answer : Option (List IpAddr)} {addr : IpAddr}
    (h : resolvePublic host answer = .ok addr) :
    ∃ rest, answer = some (addr :: rest) ∧ isDisallowedIp addr = false := by
  unfold resolvePublic at h
  split at h
  · cases h
  · cases h
  · rename_i first rest
    split_ifs at h with hany
    obtain rfl := Except.ok.inj h
    refine ⟨rest, rfl, ?_⟩
    rw [List.any_cons, Bool.or_eq_true, not_or] at hany
    exact Bool.eq_false_iff.mpr hany.1

/-- The connections of the loop are to the first addresses of the answers, hop by hop. -/
theorem connected_follow {lib : UrlLib} {domain expected : String} {hop : ℕ → Hop} (fuel i : ℕ)
    (url : lib.Url) {j : ℕ} {addr : IpAddr}
    (h : (follow lib domain expected hop fuel i url).1[j]? = some addr) :
    ∃ rest, (hop (i + j)).answer = some (addr :: rest) ∧ isDisallowedIp addr = false := by
  induction fuel generalizing i url j with
  | zero => cases h
  | succ fuel ih =>
    unfold follow at h
    split at h
    · cases h
    split at h
    · cases h
    split at h
    · cases h
    rename_i first hresolve
    obtain ⟨rest, hanswer, hallowed⟩ := resolvePublic_eq_ok hresolve
    have hone (h : [first][j]? = some addr) :
        ∃ rest, (hop (i + j)).answer = some (addr :: rest) ∧ isDisallowedIp addr = false := by
      cases j with
      | zero =>
        obtain rfl := Option.some.inj h
        exact ⟨rest, hanswer, hallowed⟩
      | succ j => cases h
    split at h
    · cases h
    split at h
    · exact hone h
    split_ifs at h
    · split at h
      · exact hone h
      · split at h
        · exact hone h
        · -- the hops after this one
          rename_i next _
          cases j with
          | zero =>
            obtain rfl := Option.some.inj h
            exact ⟨rest, hanswer, hallowed⟩
          | succ j =>
            rw [show i + (j + 1) = i + 1 + j by omega]
            exact ih (i + 1) next h
    · exact hone h

variable (v : Http01Validator) (lib : UrlLib) (domain token thumbprint : String)
  (shared : List IpAddr × Option Http01Response) (hop : ℕ → Hop)

/-- Every address that is connected to is public. -/
def ConnectsToPublic : Prop :=
  ∀ addr ∈ (v.validate lib domain token thumbprint shared hop).1, PublicTarget addr

/-- The answers that a connection was made by start with addresses that the deny list does not
miss. -/
def AnswersCovered : Prop :=
  ∀ i < (v.validate lib domain token thumbprint shared hop).1.length, ∀ addr rest,
    (hop i).answer = some (addr :: rest) → missed addr = false

/-- **Validation connects to public addresses only, exactly if no answer starts with an address
that the deny list misses.** -/
theorem connects_to_public (hguard : v.allowPrivateDomains = false) :
    ConnectsToPublic v lib domain token thumbprint shared hop ↔
      AnswersCovered v lib domain token thumbprint shared hop := by
  have hconnected {j : ℕ} {addr : IpAddr}
      (h : (v.validate lib domain token thumbprint shared hop).1[j]? = some addr) :
      ∃ rest, (hop j).answer = some (addr :: rest) ∧ isDisallowedIp addr = false := by
    unfold Http01Validator.validate at h
    rw [hguard] at h
    dsimp only at h
    rw [if_neg Bool.false_ne_true] at h
    split at h
    · cases h
    · simpa using connected_follow _ 0 _ h
  constructor
  · intro hpublic i hi addr rest hanswer
    obtain ⟨rest', hanswer', hallowed⟩ := hconnected (List.getElem?_eq_getElem hi)
    rw [hanswer'] at hanswer
    obtain ⟨heq, -⟩ := List.cons.inj (Option.some.inj hanswer)
    rw [← heq]
    exact (publicTarget_iff hallowed).mp (hpublic _ (List.getElem_mem hi))
  · intro hcovered addr hmem
    obtain ⟨i, hi, heq⟩ := List.mem_iff_getElem.mp hmem
    obtain ⟨rest, hanswer, hallowed⟩ := hconnected (List.getElem?_eq_some_iff.mpr ⟨hi, heq⟩)
    exact (publicTarget_iff hallowed).mpr (hcovered i hi addr rest hanswer)

/-! ### Instances -/

namespace Instance

/-- URLs as texts, all of one host. -/
def plainUrls : UrlLib where
  Url := String
  parse text := some text
  scheme _ := "http"
  hostStr _ := some "example.com"
  join _ location := some location

/-- The host has this address and answers the challenge. -/
def served (addr : IpAddr) (_ : ℕ) : Hop where
  answer := some [addr]
  built := .ok ()
  response := some { status := 200, location := none, body := some "token.thumbprint" }

/-- `198.18.0.1`. -/
def benchmarking : IpAddr := .v4 ⟨![198, 18, 0, 1]⟩

/-- `93.184.215.14`. -/
def webServer : IpAddr := .v4 ⟨![93, 184, 215, 14]⟩

end Instance

open Instance in
theorem connects_to_benchmarking :
    benchmarking ∈ (Http01Validator.new.validate plainUrls "example.com" "token" "thumbprint"
      ([], none) (served benchmarking)).1 ∧
    ¬ConnectsToPublic .new plainUrls "example.com" "token" "thumbprint" ([], none)
      (served benchmarking) := by
  have hmem : benchmarking ∈ (Http01Validator.new.validate plainUrls "example.com" "token"
      "thumbprint" ([], none) (served benchmarking)).1 := by
    decide +kernel
  refine ⟨hmem, fun h => ?_⟩
  have hpublic : reachableV4 ⟨![198, 18, 0, 1]⟩ = true := h _ hmem
  revert hpublic
  decide +kernel

open Instance in
theorem connects_to_public_webServer :
    ConnectsToPublic .new plainUrls "example.com" "token" "thumbprint" ([], none)
      (served webServer) := by
  refine (connects_to_public .new plainUrls "example.com" "token" "thumbprint" ([], none)
    (served webServer) rfl).mpr fun i _ addr rest hanswer => ?_
  obtain ⟨rfl, -⟩ := List.cons.inj (Option.some.inj hanswer)
  decide +kernel

end Ostrich.Acme
