import Ostrich.X509.Equiv.Normalize

/-!
# Putting the attributes back

`Request` is the structure of a request: `encode` is its strict encoding, with or without
attributes.  `Sound der` says that `normalizeMissingAttributes` leaves `der` as it is, refuses it,
or completes it (`Completed`), that it does nothing more to its own result, and that the fields of
the result are those of the bytes that the request signs (`SameFields`).

`normalize_sound_iff`: a request that is rebuilt is completed exactly if its layout is `Canonical`.
The walk accepts much else: lengths in other forms, and octets behind the request, which the rebuilt
request no longer has (`not_sound_trailing`).
-/

namespace Ostrich.X509

open Der

/-! ### The encoder -/

theorem ofBytes_toBeBytes {n : ℕ} (h : n < 2 ^ 64) : ofBytes (toBeBytes n) = n := by
  simp only [toBeBytes, ofBytes_cons, UInt8.toNat_ofNat', List.length_cons, List.length_nil]
  simp only [ofBytes, List.foldl_nil]
  omega

theorem high_or_eq {k : ℕ} (h : k ≤ 8) : 0x80 ||| UInt8.ofNat k = UInt8.ofNat (128 + k) := by
  have hall : ∀ k ≤ 8, 0x80 ||| UInt8.ofNat k = UInt8.ofNat (128 + k) := by decide
  exact hall k h

theorem derLenBytes_eq_minLength {n : ℕ} (h : n < 2 ^ 64) : derLenBytes n = minLength n := by
  have hdigits : (toBeBytes n).dropWhile (· = 0) = minBytes n := by
    rw [← minBytes_ofBytes, ofBytes_toBeBytes h]
  unfold derLenBytes minLength
  dsimp only
  rw [hdigits, high_or_eq (length_minBytes_le h)]

theorem derSeq_eq_strict {content : List UInt8} (h : content.length < 2 ^ 64) :
    derSeq content = strict 0x30 content := by
  rw [derSeq, strict, derLenBytes_eq_minLength h]

/-! ### Requests -/

/-- The contents of the elements of a request. -/
structure Request where
  version : List UInt8
  subject : List UInt8
  publicKey : List UInt8
  algorithm : List UInt8
  signature : List UInt8

/-- The elements of the request information before the attributes. -/
def Request.fields (r : Request) : List UInt8 :=
  strict 0x02 r.version ++ (strict 0x30 r.subject ++ strict 0x30 r.publicKey)

/-- The algorithm and the signature. -/
def Request.tail (r : Request) : List UInt8 := strict 0x30 r.algorithm ++ strict 0x03 r.signature

/-- The request with these octets as the attributes field. -/
def Request.encode (r : Request) (attributes : List UInt8) : List UInt8 :=
  strict 0x30 (strict 0x30 (r.fields ++ attributes) ++ r.tail)

/-- `der` is a request without attributes, and `out` the same with an empty `[0]`. -/
def Completed (der out : List UInt8) : Prop :=
  ∃ r : Request, der.length ≤ usizeMax ∧ der = r.encode [] ∧ out = r.encode (strict 0xA0 [])

/-- What is read of `out` as a request, with lengths in any form, is what the bytes that `der` signs
encode; an empty attributes field may have been put in. -/
def SameFields (der out : List UInt8) : Prop :=
  ∀ l : Layout, l.bytes = out → ¬ l.Overruns → ∃ tbs, extractCertReqInfoTbs der = .ok tbs ∧
    (Element 0x30 l.fields tbs ∨
      l.attributes = strict 0xA0 [] ∧
        Element 0x30 (l.version ++ (l.subject ++ l.publicKey)) tbs)

/-- The attributes are put in only where they are missing from a request. -/
def Sound (der : List UInt8) : Prop :=
  match normalizeMissingAttributes der with
  | .ok out => (out = der ∨ Completed der out) ∧ normalizeMissingAttributes out = .ok out ∧
      SameFields der out
  | .err _ => True
  | .panic => False
  | .hang => False

/-- All lengths are in the shortest form, the algorithm and the signature follow the request
information and nothing follows them, and with an attributes field the length of the request still
has four octets. -/
structure Canonical (l : Layout) : Prop where
  outerOctets : l.outerOctets = minLength l.outerSize
  infoOctets : l.infoOctets = minLength l.fields.length
  version : ∃ content, l.version = strict 0x02 content
  subject : ∃ content, l.subject = strict 0x30 content
  publicKey : ∃ content, l.publicKey = strict 0x30 content
  tail : ∃ algorithm signature, l.rest = strict 0x30 algorithm ++ strict 0x03 signature
  outerSize : l.outerSize = (l.info ++ l.rest).length
  room : (strict 0x30 (l.fields ++ strict 0xA0 []) ++ l.rest).length < 2 ^ 32

/-! ### Layouts -/

namespace Layout

/-- The element that a layout is, with what follows it. -/
theorem exists_outer (l : Layout) : ∃ outer,
    l.bytes = outer ++ (l.info ++ l.rest).drop l.outerSize ∧
    Element 0x30 ((l.info ++ l.rest).take l.outerSize) outer ∧
    outer = 0x30 :: (l.outerOctets ++ (l.info ++ l.rest).take l.outerSize) := by
  have hfits : l.outerSize ≤ (l.info ++ l.rest).length := by
    have hle := l.outerFits
    rw [List.length_append, l.length_info]
    exact hle
  have hsize : ((l.info ++ l.rest).take l.outerSize).length = l.outerSize := by
    rw [List.length_take]
    omega
  refine ⟨_, ?_, ⟨l.outerOctets, by rw [hsize]; exact l.outerLength, rfl⟩, rfl⟩
  rw [List.cons_append, List.append_assoc, List.take_append_drop]
  rfl

theorem extractCertReqInfoTbs_bytes (l : Layout) : extractCertReqInfoTbs l.bytes = .ok l.info := by
  have hslice : slice l.bytes (1 + l.outerOctets.length)
      (1 + l.outerOctets.length + l.info.length) = .ok l.info := by
    have hlen : 1 + l.outerOctets.length = ((0x30 : UInt8) :: l.outerOctets).length := by
      rw [List.length_cons]
      omega
    have hbytes : l.bytes = (0x30 :: l.outerOctets) ++ (l.info ++ l.rest) := rfl
    rw [hlen, hbytes]
    exact slice_append _ _ _
  unfold extractCertReqInfoTbs
  rw [l.walk_outer]
  dsimp only [ofExcept, bind, Outcome.bind]
  rw [l.walk_info]
  exact hslice

/-- The content of the element that a layout is: the request information and what is left of the
rest. -/
theorem take_outerSize {l : Layout} (h : ¬ l.Overruns) : (l.info ++ l.rest).take l.outerSize
    = l.info ++ l.rest.take (l.outerSize - l.info.length) := by
  rw [List.take_append, List.take_of_length_le (Nat.le_of_not_lt h)]

/-- **The fields of a layout are determined by its bytes.** -/
theorem fields_inj {l l' : Layout} (h : l.bytes = l'.bytes) :
    l.outerSize = l'.outerSize ∧ l.info = l'.info ∧ l.fields = l'.fields ∧ l.rest = l'.rest := by
  obtain ⟨-, hsize, hbody⟩ := l.outerLength.append_inj l'.outerLength (List.cons.inj h).2
  obtain ⟨hfields, hinfo, hrest⟩ := l.infoElement.append_inj l'.infoElement hbody
  exact ⟨hsize, hinfo, hfields, hrest⟩

/-- The elements are determined by the fields, up to octets that follow. -/
theorem elements_inj {l l' : Layout} {after : List UInt8} (h : l.fields = l'.fields ++ after) :
    l.version = l'.version ∧ l.subject = l'.subject ∧ l.publicKey = l'.publicKey ∧
      l.attributes = l'.attributes ++ after := by
  obtain ⟨_, hversion⟩ := l.versionElement
  obtain ⟨_, hversion'⟩ := l'.versionElement
  obtain ⟨_, hsubject⟩ := l.subjectElement
  obtain ⟨_, hsubject'⟩ := l'.subjectElement
  obtain ⟨_, hpublicKey⟩ := l.publicKeyElement
  obtain ⟨_, hpublicKey'⟩ := l'.publicKeyElement
  unfold fields at h
  simp only [List.append_assoc] at h
  obtain ⟨-, heqVersion, h⟩ := hversion.append_inj hversion' h
  obtain ⟨-, heqSubject, h⟩ := hsubject.append_inj hsubject' h
  obtain ⟨-, heqPublicKey, h⟩ := hpublicKey.append_inj hpublicKey' h
  exact ⟨heqVersion, heqSubject, heqPublicKey, h⟩

end Layout

/-! ### The rebuilt request -/

/-- The content of the rebuilt request. -/
def Layout.rebuiltContent (l : Layout) : List UInt8 :=
  strict 0x30 (l.fields ++ strict 0xA0 []) ++ l.rest.take (l.outerSize - l.info.length)

theorem length_rebuiltContent_lt (l : Layout) : (l.fields ++ strict 0xA0 []).length < 2 ^ 64 ∧
    l.rebuiltContent.length < 2 ^ 64 := by
  have hfields := l.length_fields_lt
  have hsize := l.outerLength.lt
  have hattributes : (strict 0xA0 []).length = 2 := rfl
  have hlen : (l.fields ++ strict 0xA0 []).length < 2 ^ 64 := by
    rw [List.length_append]
    omega
  have hinner := length_strict_le 0x30 hlen
  have htake := List.length_take_le (l.outerSize - l.info.length) l.rest
  refine ⟨hlen, ?_⟩
  unfold Layout.rebuiltContent
  rw [List.length_append] at hinner ⊢
  omega

/-- What `normalizeMissingAttributes` makes of a layout without attributes. -/
theorem normalizeMissingAttributes_rebuilds {l : Layout} (hattributes : l.attributes = [])
    (hover : ¬ l.Overruns) :
    normalizeMissingAttributes l.bytes = .ok (strict 0x30 l.rebuiltContent) := by
  obtain ⟨hfields, hcontent⟩ := length_rebuiltContent_lt l
  have hempty : strict 0xA0 [] = [0xA0, 0x00] := rfl
  rw [normalizeMissingAttributes_layout, if_neg (not_not.2 hattributes)]
  refine (if_neg hover).trans ?_
  unfold Layout.rebuiltContent at hcontent ⊢
  rw [hempty] at hfields hcontent ⊢
  rw [derSeq_eq_strict hfields, derSeq_eq_strict hcontent]

/-- Whoever reads the rebuilt request finds the fields with empty attributes. -/
theorem fields_of_rebuilt {l l' : Layout} (h : l'.bytes = strict 0x30 l.rebuiltContent)
    (hover : ¬ l'.Overruns) : l'.fields = l.fields ++ strict 0xA0 [] := by
  obtain ⟨hfields, hcontent⟩ := length_rebuiltContent_lt l
  obtain ⟨outer, hbytes, helement, -⟩ := l'.exists_outer
  have hread : strict 0x30 l.rebuiltContent ++ [] = outer
    ++ (l'.info ++ l'.rest).drop l'.outerSize := by
    rw [List.append_nil, ← h, hbytes]
  obtain ⟨-, htake, -, -⟩ := strict_append_inj hcontent helement hread
  rw [Layout.take_outerSize hover] at htake
  obtain ⟨-, heq, -, -⟩ := strict_append_inj hfields l'.infoElement htake.symm
  exact heq

theorem sameFields_rebuilt {l : Layout} (hattributes : l.attributes = []) :
    SameFields l.bytes (strict 0x30 l.rebuiltContent) := by
  intro l' hbytes hover
  obtain ⟨hversion, hsubject, hpublicKey, hempty⟩ :=
    Layout.elements_inj (fields_of_rebuilt hbytes hover)
  refine ⟨l.info, l.extractCertReqInfoTbs_bytes, Or.inr ⟨?_, ?_⟩⟩
  · rw [hempty, hattributes, List.nil_append]
  · have helement := l.infoElement
    unfold Layout.fields at helement
    rw [hattributes, List.append_nil] at helement
    rw [hversion, hsubject, hpublicKey]
    exact helement

theorem sameFields_self (der : List UInt8) : SameFields der der := by
  intro l hbytes hover
  rw [← hbytes]
  exact ⟨l.info, l.extractCertReqInfoTbs_bytes, Or.inl l.infoElement⟩

theorem rebuilt_ne {l : Layout} (hattributes : l.attributes = []) (hover : ¬ l.Overruns) :
    strict 0x30 l.rebuiltContent ≠ l.bytes := by
  intro h
  obtain ⟨-, -, -, hempty⟩ := Layout.elements_inj (fields_of_rebuilt h.symm hover)
  rw [hattributes] at hempty
  exact absurd hempty.symm (List.cons_ne_nil _ _)

/-- With attributes in it, and a length that can be read, the rebuilt request stays as it is. -/
theorem normalizeMissingAttributes_rebuilt {l : Layout} (hattributes : l.attributes = [])
    (hroom : l.rebuiltContent.length < 2 ^ 32) :
    normalizeMissingAttributes (strict 0x30 l.rebuiltContent)
      = .ok (strict 0x30 l.rebuiltContent) := by
  have hfields : l.version ++ (l.subject ++ (l.publicKey ++ strict 0xA0 []))
      = l.fields ++ strict 0xA0 [] := by
    unfold Layout.fields
    rw [hattributes, List.append_nil]
    simp only [List.append_assoc]
  have hinner : (l.fields ++ strict 0xA0 []).length < 2 ^ 32 := by
    have hle : (l.fields ++ strict 0xA0 []).length ≤ l.rebuiltContent.length := by
      unfold Layout.rebuiltContent strict
      simp only [List.length_append, List.length_cons]
      omega
    omega
  have hlen : l.rebuiltContent.length = 1 + (minLength (l.fields ++ strict 0xA0 []).length).length
      + (l.fields ++ strict 0xA0 []).length
      + (l.rest.take (l.outerSize - l.info.length)).length := by
    unfold Layout.rebuiltContent
    rw [List.length_append, strict, List.length_cons, List.length_append]
    omega
  let l' : Layout :=
    { outerOctets := minLength l.rebuiltContent.length
      outerSize := l.rebuiltContent.length
      infoOctets := minLength (l.fields ++ strict 0xA0 []).length
      version := l.version
      subject := l.subject
      publicKey := l.publicKey
      attributes := strict 0xA0 []
      rest := l.rest.take (l.outerSize - l.info.length)
      outerLength := lengthOctets_minLength hroom
      infoLength := by rw [hfields]; exact lengthOctets_minLength hinner
      versionElement := l.versionElement
      subjectElement := l.subjectElement
      publicKeyElement := l.publicKeyElement
      outerFits := by rw [hfields, hlen] }
  have hbytes : l'.bytes = strict 0x30 l.rebuiltContent := by
    have hinfo : l'.info = strict 0x30 (l.fields ++ strict 0xA0 []) := by
      show 0x30 :: (minLength _ ++ (l.version ++ (l.subject ++ (l.publicKey ++ strict 0xA0 []))))
        = _
      rw [hfields]
      rfl
    show 0x30 :: (minLength l.rebuiltContent.length ++ (l'.info ++ _)) = _
    rw [hinfo]
    rfl
  have hpresent : l'.attributes ≠ [] := List.cons_ne_nil _ _
  have hstays := normalizeMissingAttributes_layout l'
  rw [hbytes, if_pos hpresent] at hstays
  exact hstays

/-! ### Canonical layouts -/

/-- The length octets of an element that is the strict one are the shortest. -/
theorem octets_of_eq_strict {tag : UInt8} {octets content : List UInt8}
    (h : tag :: (octets ++ content) = strict tag content) : octets = minLength content.length :=
  List.append_cancel_right (List.cons.inj h).2

/-- The layout of a strict request has the elements of the request. -/
theorem layout_of_encode {l : Layout} {r : Request} (hlen : l.bytes.length ≤ usizeMax)
    (h : l.bytes = r.encode []) :
    l.outerOctets = minLength l.outerSize ∧ l.outerSize = (l.info ++ l.rest).length ∧
      l.infoOctets = minLength l.fields.length ∧ l.fields = r.fields ∧ l.rest = r.tail := by
  have hmax : usizeMax < 2 ^ 64 := by decide
  have hcontent : (strict 0x30 (r.fields ++ []) ++ r.tail).length < 2 ^ 64 := by
    rw [h, Request.encode, strict, List.length_cons, List.length_append] at hlen
    omega
  have hfields : (r.fields ++ []).length < 2 ^ 64 := by
    rw [List.length_append, strict, List.length_cons, List.length_append] at hcontent
    omega
  obtain ⟨outer, hbytes, helement, houter⟩ := l.exists_outer
  have hread : strict 0x30 (strict 0x30 (r.fields ++ []) ++ r.tail) ++ []
      = outer ++ (l.info ++ l.rest).drop l.outerSize := by
    rw [List.append_nil, ← hbytes, h, Request.encode]
  obtain ⟨-, htake, hstrict, hdrop⟩ := strict_append_inj hcontent helement hread
  have hsize : l.outerSize = (l.info ++ l.rest).length := by
    have hfits := l.outerFits
    have hge := List.drop_eq_nil_iff.1 hdrop.symm
    have hinfo := l.length_info
    rw [List.length_append] at hge ⊢
    unfold Layout.fields at hinfo
    omega
  rw [hsize, List.take_length] at htake
  obtain ⟨-, hfieldsEq, hinfo, hrest⟩ := strict_append_inj hfields l.infoElement htake.symm
  refine ⟨?_, hsize, ?_, ?_, hrest.symm⟩
  · rw [houter, hsize, List.take_length, ← htake] at hstrict
    rw [hsize]
    exact octets_of_eq_strict hstrict
  · rw [← hfieldsEq] at hinfo
    exact octets_of_eq_strict hinfo
  · rw [hfieldsEq, List.append_nil]

theorem canonical_of_encode {l : Layout} {r : Request} (hlen : l.bytes.length ≤ usizeMax)
    (hattributes : l.attributes = []) (h : l.bytes = r.encode [])
    (hroom : l.rebuiltContent.length < 2 ^ 32) : Canonical l := by
  obtain ⟨houter, hsize, hinfo, hfields, hrest⟩ := layout_of_encode hlen h
  have hlt := l.length_fields_lt
  have htotal : r.fields.length = (strict 0x02 r.version).length
      + ((strict 0x30 r.subject).length + (strict 0x30 r.publicKey).length) := by
    unfold Request.fields
    rw [List.length_append, List.length_append]
  unfold strict at htotal
  simp only [List.length_cons, List.length_append] at htotal
  rw [hfields] at hlt
  obtain ⟨_, hversionElement⟩ := l.versionElement
  obtain ⟨_, hsubjectElement⟩ := l.subjectElement
  obtain ⟨_, hpublicKeyElement⟩ := l.publicKeyElement
  have hwalk : strict 0x02 r.version ++ (strict 0x30 r.subject ++ (strict 0x30 r.publicKey ++ []))
      = l.version ++ (l.subject ++ (l.publicKey ++ [])) := by
    have heq := hfields
    unfold Layout.fields Request.fields at heq
    rw [hattributes] at heq
    rw [heq, List.append_nil]
  obtain ⟨-, -, hversion, hwalk⟩ := strict_append_inj (by omega) hversionElement hwalk
  obtain ⟨-, -, hsubject, hwalk⟩ := strict_append_inj (by omega) hsubjectElement hwalk
  obtain ⟨-, -, hpublicKey, -⟩ := strict_append_inj (by omega) hpublicKeyElement hwalk
  refine ⟨houter, hinfo, ⟨_, hversion⟩, ⟨_, hsubject⟩, ⟨_, hpublicKey⟩, ⟨_, _, hrest⟩, hsize, ?_⟩
  have hleft : l.outerSize - l.info.length = l.rest.length := by
    rw [hsize, List.length_append]
    omega
  unfold Layout.rebuiltContent at hroom
  rw [hleft, List.take_length] at hroom
  exact hroom

/-- A canonical layout is completed. -/
theorem Canonical.completed {l : Layout} (h : Canonical l) (hattributes : l.attributes = []) :
    l.rebuiltContent.length < 2 ^ 32 ∧ Completed l.bytes (strict 0x30 l.rebuiltContent) := by
  obtain ⟨version, hversion⟩ := h.version
  obtain ⟨subject, hsubject⟩ := h.subject
  obtain ⟨publicKey, hpublicKey⟩ := h.publicKey
  obtain ⟨algorithm, signature, htail⟩ := h.tail
  have hleft : l.outerSize - l.info.length = l.rest.length := by
    rw [h.outerSize, List.length_append]
    omega
  have hcontent : l.rebuiltContent = strict 0x30 (l.fields ++ strict 0xA0 []) ++ l.rest := by
    unfold Layout.rebuiltContent
    rw [hleft, List.take_length]
  have hroom := h.room
  refine ⟨by rw [hcontent]; exact hroom,
    ⟨version, subject, publicKey, algorithm, signature⟩, ?_, ?_,
    ?_⟩
  · have houter := l.outerLength.length_le
    have hlt := l.outerLength.lt
    have hlen : l.bytes.length = 1 + l.outerOctets.length + (l.info ++ l.rest).length := by
      unfold Layout.bytes
      rw [List.length_cons, List.length_append]
      omega
    have hmax : usizeMax = 2 ^ 64 - 1 := rfl
    rw [hlen, ← h.outerSize]
    omega
  · have hfields : l.fields
      = Request.fields ⟨version, subject, publicKey, algorithm, signature⟩ := by
      unfold Layout.fields Request.fields
      rw [hattributes, List.append_nil, hversion, hsubject, hpublicKey]
    have hinfo : l.info = strict 0x30 l.fields := by
      unfold Layout.info strict
      rw [h.infoOctets]
    have hbytes : l.bytes = strict 0x30 (l.info ++ l.rest) := by
      unfold Layout.bytes
      rw [h.outerOctets, h.outerSize]
      rfl
    rw [hbytes, hinfo, htail, hfields, Request.encode, List.append_nil]
    rfl
  · have hfields : l.fields
      = Request.fields ⟨version, subject, publicKey, algorithm, signature⟩ := by
      unfold Layout.fields Request.fields
      rw [hattributes, List.append_nil, hversion, hsubject, hpublicKey]
    rw [hcontent, htail, hfields]
    rfl

/-- **Attributes are put only into a request that lacks them** exactly if the request has no layout
without attributes or this layout is canonical. -/
theorem normalize_sound_iff (der : List UInt8) :
    Sound der ↔ ∀ l : Layout, l.bytes = der → l.attributes = [] → Canonical l := by
  constructor
  · intro hsound l hbytes hattributes
    subst hbytes
    unfold Sound at hsound
    by_cases hover : l.Overruns
    · rw [normalizeMissingAttributes_of_runsOver ⟨l, hattributes, hover, rfl⟩] at hsound
      exact hsound.elim
    · rw [normalizeMissingAttributes_rebuilds hattributes hover] at hsound
      obtain ⟨hor, hidempotent, -⟩ := hsound
      obtain ⟨r, hlen, hencode, -⟩ := hor.resolve_left (rebuilt_ne hattributes hover)
      -- the result is read again, so its length has four octets at most
      have hroom : l.rebuiltContent.length < 2 ^ 32 := by
        obtain ⟨⟨v, e⟩, houter, -⟩ := Outcome.eq_ok_of_bind hidempotent
        obtain ⟨element, rest, content, hread, helement, -⟩ :=
          @exists_element_of_derTlv [] _ _ _ _ _ rfl (ofExcept_eq_ok houter)
        have hread' : strict 0x30 l.rebuiltContent ++ [] = element ++ rest := by
          rw [List.append_nil]
          exact hread
        exact (strict_append_inj (length_rebuiltContent_lt l).2 helement hread').1
      exact canonical_of_encode hlen hattributes hencode hroom
  · intro h
    unfold Sound
    rcases normalizeMissingAttributes_cases der with ⟨e, heq⟩ | heq | ⟨l, hattributes, hbytes⟩
    · rw [heq]
      trivial
    · rw [heq]
      exact ⟨Or.inl rfl, heq, sameFields_self der⟩
    · have hcanonical := h l hbytes hattributes
      have hover : ¬ l.Overruns := by
        unfold Layout.Overruns
        rw [hcanonical.outerSize, List.length_append]
        omega
      obtain ⟨hroom, hcompleted⟩ := hcanonical.completed hattributes
      rw [← hbytes, normalizeMissingAttributes_rebuilds hattributes hover]
      exact ⟨Or.inr hcompleted, normalizeMissingAttributes_rebuilt hattributes hroom,
        sameFields_rebuilt hattributes⟩

/-- A request without attributes. -/
def bareRequest : List UInt8 :=
  [0x30, 0x13, 0x30, 0x07, 0x02, 0x01, 0x00, 0x30, 0x00, 0x30, 0x00, 0x30, 0x05, 0x06, 0x03, 0x2B,
    0x65, 0x70, 0x03, 0x01, 0x00]

/-- **An octet behind the request is dropped**: what becomes of it is what becomes of the request
without it, and it is accepted. -/
theorem not_sound_trailing :
    ¬ Sound (bareRequest ++ [0xFF]) ∧
      normalizeMissingAttributes (bareRequest ++ [0xFF]) = normalizeMissingAttributes bareRequest ∧
      ∃ csr, parseCsr Reader.derReader (bareRequest ++ [0xFF]) = .ok csr := by
  have hresult : normalizeMissingAttributes (bareRequest ++ [0xFF]) = .ok [0x30, 0x15, 0x30, 0x09,
      0x02, 0x01, 0x00, 0x30, 0x00, 0x30, 0x00, 0xA0, 0x00, 0x30, 0x05, 0x06, 0x03, 0x2B, 0x65,
      0x70, 0x03, 0x01, 0x00] := by decide +kernel
  refine ⟨fun hsound => ?_, by decide +kernel, ⟨⟨"", [], [0x30, 0x00], [], "1.3.101.112", [],
    bareRequest ++ [0xFF]⟩, by decide +kernel⟩⟩
  unfold Sound at hsound
  rw [hresult] at hsound
  rcases hsound.1 with hsame | ⟨r, hlen, hencode, -⟩
  · exact absurd hsame (by decide)
  · have helement : Element 0x30 (bareRequest.drop 2) bareRequest :=
      ⟨[0x13], .short (b := 0x13) (by decide), rfl⟩
    have hmax : usizeMax < 2 ^ 64 := by decide
    have hcontent : (strict 0x30 (r.fields ++ []) ++ r.tail).length < 2 ^ 64 := by
      rw [hencode, Request.encode, strict, List.length_cons, List.length_append] at hlen
      omega
    have hread : strict 0x30 (strict 0x30 (r.fields ++ []) ++ r.tail) ++ []
        = bareRequest ++ [0xFF] := by
      rw [List.append_nil, hencode, Request.encode]
    obtain ⟨-, -, -, hnil⟩ := strict_append_inj hcontent helement hread
    cases hnil

end Ostrich.X509
