import Ostrich.Lib.DerWalk
import Ostrich.X509.Csr
import Ostrich.X509.Reader

/-!
# The missing attributes field

`derTlv` reads elements with lengths in any form (`derTlv_append`, `exists_of_derTlv`), and bounds
each by the buffer, not by the element around it.  `Layout` is what the walk over a request finds:
the inner elements need not fit into the outer one.

* `normalizeMissingAttributes_layout`: what becomes of a layout;
* `normalizeMissingAttributes_cases`: without one, the request is refused or stays as it is;
* `parseCsr_returns_iff`: parsing panics exactly on the requests that x509-parser refuses and that
  are a layout without attributes whose request information runs over the end of the request;
* `normalize_sound_iff`: the requests for which the attributes are put back into the same request.
-/

namespace Ostrich.X509

open Der

/-! ### The walker -/

theorem and_high_eq_zero_iff (b : UInt8) : b &&& 0x80 = 0 ↔ b.toNat < 128 := by
  have hall : ∀ n < 256, UInt8.ofNat n &&& 0x80 = 0 ↔ (UInt8.ofNat n).toNat < 128 := by
    decide +kernel
  have hb := hall b.toNat b.toNat_lt
  rwa [UInt8.ofNat_toNat] at hb

theorem toNat_and_low (b : UInt8) : (b &&& 0x7f).toNat = b.toNat % 128 := by
  have hall : ∀ n < 256, (UInt8.ofNat n &&& 0x7f).toNat = (UInt8.ofNat n).toNat % 128 := by
    decide +kernel
  have hb := hall b.toNat b.toNat_lt
  rwa [UInt8.ofNat_toNat] at hb

theorem derLength_of_lengthOctets {tag b : UInt8} {tail octets after : List UInt8} {n : ℕ}
    (hoctets : LengthOctets octets n) (h : b :: tail = octets ++ after) :
    derLength (tag :: b :: tail) b = .ok (1 + octets.length, n) := by
  unfold derLength
  cases hoctets with
  | @short c hc =>
    obtain ⟨rfl, -⟩ := List.cons.inj h
    rw [if_pos ((and_high_eq_zero_iff b).2 hc)]
    rfl
  | @long c digits hc hpos hle =>
    obtain ⟨rfl, htail⟩ := List.cons.inj h
    have hlen := List.length_pos_of_ne_nil hpos
    have hcount : (b &&& 0x7f).toNat = digits.length := by
      rw [toNat_and_low]
      omega
    have htake : ((tag :: b :: tail).drop 2).take digits.length = digits := by
      rw [htail]
      exact List.take_left
    rw [if_neg (by rw [and_high_eq_zero_iff]; omega), hcount]
    dsimp only
    rw [if_neg (by omega), htake, if_neg (by omega), List.length_cons]
    congr 2
    omega

theorem lengthOctets_of_derLength {tag b : UInt8} {tail : List UInt8} {k n : ℕ}
    (h : derLength (tag :: b :: tail) b = .ok (k, n)) :
    ∃ octets after, b :: tail = octets ++ after ∧ LengthOctets octets n ∧
      k = 1 + octets.length := by
  unfold derLength at h
  by_cases hlow : b &&& 0x80 = 0
  · rw [if_pos hlow] at h
    obtain ⟨rfl, rfl⟩ := Prod.mk.inj (Except.ok.inj h)
    exact ⟨[b], tail, rfl, .short ((and_high_eq_zero_iff b).1 hlow), rfl⟩
  · rw [if_neg hlow] at h
    have hhigh : ¬ b.toNat < 128 := fun hlt => hlow ((and_high_eq_zero_iff b).2 hlt)
    have hcount : b.toNat = 128 + (b &&& 0x7f).toNat := by
      have hlt := b.toNat_lt
      rw [toNat_and_low]
      omega
    dsimp only at h
    generalize (b &&& 0x7f).toNat = count at h hcount
    split_ifs at h with hsize hshort
    obtain ⟨rfl, rfl⟩ := Prod.mk.inj (Except.ok.inj h)
    have hlen : (tail.take count).length = count := by
      have hge : ¬ (tail.take count).length < count := hshort
      have hle := List.length_take_le count tail
      omega
    have hpos : tail.take count ≠ [] := by
      intro hnil
      rw [hnil, List.length_nil] at hlen
      omega
    refine ⟨b :: tail.take count, tail.drop count, ?_, .long (by omega) hpos (by omega), ?_⟩
    · rw [List.cons_append, List.take_append_drop]
    · rw [List.length_cons, hlen]
      omega

/-- An element is read where it stands. -/
theorem derTlv_append {before octets content rest : List UInt8} {tag : UInt8}
    (h : LengthOctets octets content.length) (hbefore : before.length ≤ 2 ^ 40) :
    derTlv (before ++ tag :: (octets ++ (content ++ rest))) before.length tag
      = .ok (before.length + (1 + octets.length),
        before.length + (1 + octets.length) + content.length) := by
  have hcontent := h.lt
  have hoctets := h.length_le
  have hmax : usizeMax = 2 ^ 64 - 1 := rfl
  have hlen : (before ++ tag :: (octets ++ (content ++ rest))).length
      = before.length + (1 + octets.length) + content.length + rest.length := by
    simp only [List.length_append, List.length_cons]
    omega
  unfold derTlv
  rw [if_neg (by omega), List.drop_left]
  obtain ⟨b, tail, htail⟩ : ∃ b tail, octets ++ (content ++ rest) = b :: tail :=
    List.exists_cons_of_ne_nil (List.append_ne_nil_of_left_ne_nil h.ne_nil _)
  rw [htail]
  dsimp only
  rw [if_neg (not_not.2 rfl), derLength_of_lengthOctets h htail.symm, ← htail, hlen]
  dsimp only [bind, Except.bind, pure, Except.pure]
  rw [if_neg (by omega), if_neg (by omega), if_neg (by omega)]

/-- What is read is an element. -/
theorem exists_of_derTlv {before bytes : List UInt8} {tag : UInt8} {v e : ℕ}
    (h : derTlv (before ++ bytes) before.length tag = .ok (v, e)) :
    ∃ octets content rest, bytes = tag :: (octets ++ (content ++ rest)) ∧
      LengthOctets octets content.length ∧ v = before.length + (1 + octets.length) ∧
      e = v + content.length := by
  unfold derTlv at h
  rw [if_neg (by rw [List.length_append]; omega), List.drop_left] at h
  cases bytes with
  | nil => cases h
  | cons t tail =>
    cases tail with
    | nil => cases h
    | cons b tail =>
      dsimp only at h
      by_cases htag : t ≠ tag
      · rw [if_pos htag] at h
        cases h
      · rw [if_neg htag] at h
        obtain ⟨⟨k, n⟩, hlength, h⟩ := bind_eq_ok (x := derLength (t :: b :: tail) b) h
        obtain ⟨octets, after, htail, hoctets, rfl⟩ := lengthOctets_of_derLength hlength
        dsimp only [bind, Except.bind, pure, Except.pure] at h
        split_ifs at h with hoff hmax hend
        obtain ⟨rfl, rfl⟩ := Prod.mk.inj (Except.ok.inj h)
        rw [htail, List.length_append, List.length_cons, List.length_append] at hend
        have hcontent : (after.take n).length = n := by
          rw [List.length_take]
          omega
        refine ⟨octets, after.take n, after.drop n, ?_, by rwa [hcontent], rfl, by rw [hcontent]⟩
        rw [List.take_append_drop, ← htail, not_not.1 htag]

/-- An element with something before it, and where it ends. -/
theorem derTlv_element {buf before bytes after content : List UInt8} {tag : UInt8} {off : ℕ}
    (hbuf : buf = before ++ (bytes ++ after)) (hoff : off = before.length)
    (h : Element tag content bytes) (hbefore : before.length ≤ 2 ^ 40) :
    derTlv buf off tag
      = .ok (off + (bytes.length - content.length), off + bytes.length) := by
  obtain ⟨octets, hoctets, rfl⟩ := h
  have hread := @derTlv_append before octets content after tag hoctets hbefore
  rw [hbuf, hoff, List.cons_append, List.append_assoc, hread, List.length_cons, List.length_append]
  congr 2 <;> omega

theorem slice_append (before middle after : List UInt8) :
    slice (before ++ (middle ++ after)) before.length (before.length + middle.length)
      = .ok middle := by
  unfold slice
  rw [if_pos (by simp only [List.length_append]; omega), List.drop_left, Nat.add_sub_cancel_left,
    List.take_left]

/-! ### What the walk finds -/

/-- A request as the walk over it finds it: the length octets of the request and of the request
information, the elements of the latter, and what follows it.  The size of the request is bounded
by the buffer only. -/
structure Layout where
  outerOctets : List UInt8
  outerSize : ℕ
  infoOctets : List UInt8
  version : List UInt8
  subject : List UInt8
  publicKey : List UInt8
  attributes : List UInt8
  rest : List UInt8
  outerLength : LengthOctets outerOctets outerSize
  infoLength : LengthOctets infoOctets (version ++ (subject ++ (publicKey ++ attributes))).length
  versionElement : ∃ content, Element 0x02 content version
  subjectElement : ∃ content, Element 0x30 content subject
  publicKeyElement : ∃ content, Element 0x30 content publicKey
  outerFits : outerSize ≤ 1 + infoOctets.length
    + (version ++ (subject ++ (publicKey ++ attributes))).length + rest.length

namespace Layout

variable (l : Layout)

/-- The content of the request information. -/
def fields : List UInt8 := l.version ++ (l.subject ++ (l.publicKey ++ l.attributes))

def info : List UInt8 := 0x30 :: (l.infoOctets ++ l.fields)

def bytes : List UInt8 := 0x30 :: (l.outerOctets ++ (l.info ++ l.rest))

/-- The request information runs over the end of the request. -/
def Overruns : Prop := l.outerSize < l.info.length

theorem length_info : l.info.length = 1 + l.infoOctets.length + l.fields.length := by
  unfold info
  rw [List.length_cons, List.length_append]
  omega

theorem infoElement : Element 0x30 l.fields l.info := ⟨l.infoOctets, l.infoLength, rfl⟩

theorem walk_outer : derTlv l.bytes 0 0x30
    = .ok (1 + l.outerOctets.length, 1 + l.outerOctets.length + l.outerSize) := by
  have hfits : l.outerSize ≤ (l.info ++ l.rest).length := by
    have hle := l.outerFits
    rw [List.length_append, l.length_info]
    exact hle
  have hsize : ((l.info ++ l.rest).take l.outerSize).length = l.outerSize := by
    rw [List.length_take]
    omega
  have helement : Element 0x30 ((l.info ++ l.rest).take l.outerSize)
      (0x30 :: (l.outerOctets ++ (l.info ++ l.rest).take l.outerSize)) :=
    ⟨l.outerOctets, by rw [hsize]; exact l.outerLength, rfl⟩
  have hbuf : l.bytes = [] ++ ((0x30 :: (l.outerOctets ++ (l.info ++ l.rest).take l.outerSize))
      ++ (l.info ++ l.rest).drop l.outerSize) := by
    rw [List.nil_append, List.cons_append, List.append_assoc, List.take_append_drop]
    rfl
  rw [derTlv_element hbuf (List.length_nil (α := UInt8)).symm helement (Nat.zero_le _),
    List.length_cons, List.length_append, hsize]
  congr 2 <;> omega

theorem walk_info : derTlv l.bytes (1 + l.outerOctets.length) 0x30
    = .ok (1 + l.outerOctets.length + (1 + l.infoOctets.length),
      1 + l.outerOctets.length + l.info.length) := by
  have hbuf : l.bytes = (0x30 :: l.outerOctets) ++ (l.info ++ l.rest) := rfl
  have houter := l.outerLength.length_le
  have hlen := l.length_info
  rw [derTlv_element hbuf (by rw [List.length_cons]; omega) l.infoElement
    (by rw [List.length_cons]; omega)]
  congr 2
  omega

/-- The request up to the content of the request information. -/
def header : List UInt8 := 0x30 :: (l.outerOctets ++ 0x30 :: l.infoOctets)

theorem length_header : l.header.length
    = 1 + l.outerOctets.length + (1 + l.infoOctets.length) := by
  unfold header
  simp only [List.length_cons, List.length_append]
  omega

theorem bytes_eq : l.bytes = l.header ++ (l.fields ++ l.rest) := by
  unfold bytes info header
  simp only [List.cons_append, List.append_assoc]

theorem length_header_le : l.header.length ≤ 12 := by
  have houter := l.outerLength.length_le
  have hinfo := l.infoLength.length_le
  rw [l.length_header]
  omega

theorem length_fields_lt : l.fields.length < 2 ^ 32 := l.infoLength.lt

theorem length_fields : l.fields.length
    = l.version.length + l.subject.length + l.publicKey.length + l.attributes.length := by
  unfold fields
  simp only [List.length_append]
  omega

/-- The walk over the elements of the request information. -/
theorem walk_fields : ∃ v s k,
    derTlv l.bytes l.header.length 0x02 = .ok (v, l.header.length + l.version.length) ∧
    derTlv l.bytes (l.header.length + l.version.length) 0x30
      = .ok (s, l.header.length + l.version.length + l.subject.length) ∧
    derTlv l.bytes (l.header.length + l.version.length + l.subject.length) 0x30
      = .ok (k, l.header.length + l.version.length + l.subject.length + l.publicKey.length) := by
  have hheader := l.length_header_le
  have hfields := l.length_fields_lt
  have hlen := l.length_fields
  obtain ⟨version, hversion⟩ := l.versionElement
  obtain ⟨subject, hsubject⟩ := l.subjectElement
  obtain ⟨publicKey, hpublicKey⟩ := l.publicKeyElement
  have hfirst : l.bytes = l.header
      ++ (l.version ++ (l.subject ++ (l.publicKey ++ (l.attributes ++ l.rest)))) := by
    rw [l.bytes_eq]
    unfold fields
    simp only [List.append_assoc]
  have hsecond : l.bytes = (l.header ++ l.version)
      ++ (l.subject ++ (l.publicKey ++ (l.attributes ++ l.rest))) := by
    rw [hfirst, List.append_assoc]
  have hthird : l.bytes = (l.header ++ (l.version ++ l.subject))
      ++ (l.publicKey ++ (l.attributes ++ l.rest)) := by
    rw [hfirst, List.append_assoc, List.append_assoc]
  refine ⟨_, _, _, derTlv_element hfirst rfl hversion (by omega),
    derTlv_element hsecond (by rw [List.length_append]) hsubject
      (by rw [List.length_append]; omega),
    derTlv_element hthird (by simp only [List.length_append]; omega) hpublicKey
      (by simp only [List.length_append]; omega)⟩

end Layout

/-- **What becomes of a layout**: with attributes it stays as it is, and without it is rebuilt, if
the request information ends within the request. -/
theorem normalizeMissingAttributes_layout (l : Layout) :
    normalizeMissingAttributes l.bytes =
      if l.attributes ≠ [] then .ok l.bytes
      else if l.outerSize < l.info.length then .panic
      else .ok (derSeq (derSeq (l.fields ++ [0xA0, 0x00])
        ++ l.rest.take (l.outerSize - l.info.length))) := by
  obtain ⟨v, s, k, hversion, hsubject, hpublicKey⟩ := l.walk_fields
  have hheader := l.length_header
  have hinfo := l.length_info
  have hfields := l.length_fields
  unfold normalizeMissingAttributes
  rw [l.walk_outer]
  dsimp only [ofExcept, bind, Outcome.bind]
  rw [l.walk_info, ← hheader]
  dsimp only [ofExcept]
  rw [hversion]
  dsimp only [ofExcept]
  rw [hsubject]
  dsimp only [ofExcept]
  rw [hpublicKey]
  dsimp only [ofExcept]
  by_cases hattributes : l.attributes ≠ []
  · have hpos := List.length_pos_of_ne_nil hattributes
    rw [if_pos (by omega), if_pos hattributes]
    rfl
  · have hzero : l.attributes.length = 0 := by rw [not_not.1 hattributes, List.length_nil]
    have hend : 1 + l.outerOctets.length + l.info.length
        = l.header.length + l.fields.length := by omega
    rw [if_neg (by omega), if_neg hattributes, hend]
    have hslice : slice l.bytes l.header.length (l.header.length + l.fields.length)
        = .ok l.fields := by
      rw [l.bytes_eq]
      exact slice_append _ _ _
    rw [hslice]
    dsimp only
    have htail : slice l.bytes (l.header.length + l.fields.length)
          (1 + l.outerOctets.length + l.outerSize)
        = if l.outerSize < l.info.length then .panic
          else .ok (l.rest.take (l.outerSize - l.info.length)) := by
      have hle : l.outerSize ≤ 1 + l.infoOctets.length + l.fields.length + l.rest.length :=
        l.outerFits
      have hbytes : l.bytes = (l.header ++ l.fields) ++ l.rest := by
        rw [l.bytes_eq, List.append_assoc]
      unfold slice
      by_cases hover : l.outerSize < l.info.length
      · rw [if_neg (by omega), if_pos hover]
      · have hlen : (l.header ++ l.fields).length = l.header.length + l.fields.length :=
          List.length_append
        rw [if_pos (by rw [hbytes, List.length_append, hlen]; omega), if_neg hover, hbytes, ← hlen,
          List.drop_left, hlen]
        congr 2
        omega
    rw [htail]
    split_ifs <;> rfl

theorem derTlv_bounds {buf : List UInt8} {off v e : ℕ} {tag : UInt8}
    (h : derTlv buf off tag = .ok (v, e)) : off ≤ v ∧ v ≤ e ∧ e ≤ buf.length := by
  by_cases hoff : off > buf.length
  · rw [derTlv, if_pos hoff] at h
    cases h
  · have hlen : (buf.take off).length = off := by
      rw [List.length_take]
      omega
    have hsplit : derTlv (buf.take off ++ buf.drop off) (buf.take off).length tag = .ok (v, e) := by
      rw [List.take_append_drop, hlen]
      exact h
    obtain ⟨octets, content, rest, hbytes, -, rfl, rfl⟩ := exists_of_derTlv hsplit
    have htotal : buf.length = (buf.take off).length + (buf.drop off).length := by
      rw [← List.length_append, List.take_append_drop]
    rw [hbytes, List.length_cons, List.length_append, List.length_append] at htotal
    omega

/-- An element is found after what came before it. -/
theorem exists_element_of_derTlv {before bytes : List UInt8} {tag : UInt8} {off v e : ℕ}
    (hoff : off = before.length) (h : derTlv (before ++ bytes) off tag = .ok (v, e)) :
    ∃ element rest content, bytes = element ++ rest ∧ Element tag content element ∧
      e = off + element.length := by
  rw [hoff] at h
  obtain ⟨octets, content, rest, rfl, hoctets, rfl, rfl⟩ := exists_of_derTlv h
  refine ⟨tag :: (octets ++ content), rest, content, ?_, ⟨octets, hoctets, rfl⟩, ?_⟩
  · rw [List.cons_append, List.append_assoc]
  · rw [hoff, List.length_cons, List.length_append]
    omega

/-- The elements that the walk goes over are a layout: each starts where the header of the one
around it, or the one before it, ends. -/
theorem exists_layout {der : List UInt8} {outerVal outerEnd ciVal ciEnd v verEnd s subjEnd k : ℕ}
    (houter : derTlv der 0 0x30 = .ok (outerVal, outerEnd))
    (hinfo : derTlv der outerVal 0x30 = .ok (ciVal, ciEnd))
    (hversion : derTlv der ciVal 0x02 = .ok (v, verEnd))
    (hsubject : derTlv der verEnd 0x30 = .ok (s, subjEnd))
    (hpublicKey : derTlv der subjEnd 0x30 = .ok (k, ciEnd)) :
    ∃ l : Layout, l.attributes = [] ∧ l.bytes = der := by
  have hfits := (derTlv_bounds houter).2.2
  obtain ⟨outerOctets, outerContent, outerRest, hder, houterOctets, hval, hend⟩ :=
    @exists_of_derTlv [] _ _ _ _ houter
  generalize hbody : outerContent ++ outerRest = body at hder
  have hder₁ : der = (0x30 :: outerOctets) ++ body := hder
  have hval₁ : outerVal = ((0x30 : UInt8) :: outerOctets).length := by
    rw [hval, List.length_cons, List.length_nil]
    omega
  rw [hder₁, hval₁] at hinfo
  obtain ⟨infoOctets, infoContent, infoRest, hinfoBytes, hinfoOctets, hciVal, hciEnd⟩ :=
    exists_of_derTlv hinfo
  have hder₂ : der = ((0x30 :: outerOctets) ++ 0x30 :: infoOctets)
    ++ (infoContent ++ infoRest) := by
    rw [hder₁, hinfoBytes]
    simp only [List.cons_append, List.append_assoc]
  have hval₂ : ciVal = ((0x30 :: outerOctets) ++ (0x30 : UInt8) :: infoOctets).length := by
    rw [hciVal]
    simp only [List.length_append, List.length_cons]
    omega
  rw [hder₂] at hversion
  obtain ⟨version, rest₁, versionContent, hbytes₁, hversionElement, hverEnd⟩ :=
    exists_element_of_derTlv hval₂ hversion
  have hval₃ : verEnd = ((0x30 :: outerOctets) ++ (0x30 : UInt8) :: infoOctets
    ++ version).length := by
    rw [hverEnd, hval₂]
    simp only [List.length_append]
  rw [hder₂, hbytes₁, ← List.append_assoc] at hsubject
  obtain ⟨subject, rest₂, subjectContent, hbytes₂, hsubjectElement, hsubjEnd⟩ :=
    exists_element_of_derTlv hval₃ hsubject
  have hval₄ : subjEnd
      = ((0x30 :: outerOctets) ++ (0x30 : UInt8) :: infoOctets ++ version ++ subject).length := by
    rw [hsubjEnd, hval₃]
    simp only [List.length_append]
  rw [hder₂, hbytes₁, hbytes₂, ← List.append_assoc, ← List.append_assoc] at hpublicKey
  obtain ⟨publicKey, rest₃, publicKeyContent, hbytes₃, hpublicKeyElement, hspkiEnd⟩ :=
    exists_element_of_derTlv hval₄ hpublicKey
  -- the last of them ends with the request information, so there are no attributes
  have hcontent : infoContent ++ infoRest = (version ++ (subject ++ publicKey)) ++ rest₃ := by
    rw [hbytes₁, hbytes₂, hbytes₃]
    simp only [List.append_assoc]
  have hsize : infoContent.length = (version ++ (subject ++ publicKey)).length := by
    simp only [List.length_append, List.length_cons] at hciEnd hval₂ ⊢
    omega
  obtain ⟨hfields, hrest⟩ := List.append_inj hcontent hsize
  refine ⟨⟨outerOctets, outerContent.length, infoOctets, version, subject, publicKey, [], infoRest,
    houterOctets, ?_, ⟨_, hversionElement⟩, ⟨_, hsubjectElement⟩, ⟨_, hpublicKeyElement⟩, ?_⟩, rfl,
    ?_⟩
  · rw [List.append_nil, ← hfields]
    exact hinfoOctets
  · have htotal := congrArg List.length hbody
    rw [hinfoBytes] at htotal
    rw [List.append_nil, ← hfields]
    simp only [List.length_append, List.length_cons] at htotal
    omega
  · unfold Layout.bytes Layout.info Layout.fields
    dsimp only
    rw [List.append_nil, ← hfields, hder₂]
    simp only [List.cons_append, List.append_assoc]

/-- A request without a layout that lacks the attributes is refused or stays as it is. -/
theorem normalizeMissingAttributes_cases (der : List UInt8) :
    (∃ e, normalizeMissingAttributes der = .err e) ∨ normalizeMissingAttributes der = .ok der ∨
      ∃ l : Layout, l.attributes = [] ∧ l.bytes = der := by
  cases houter : derTlv der 0 0x30 with
  | error e =>
    left
    exact ⟨e, by rw [normalizeMissingAttributes, houter]; rfl⟩
  | ok outer =>
  obtain ⟨outerVal, outerEnd⟩ := outer
  cases hinfo : derTlv der outerVal 0x30 with
  | error e =>
    left
    exact ⟨e, by rw [normalizeMissingAttributes, houter]; simp [ofExcept, hinfo]⟩
  | ok info =>
  obtain ⟨ciVal, ciEnd⟩ := info
  cases hversion : derTlv der ciVal 0x02 with
  | error e =>
    left
    exact ⟨e, by rw [normalizeMissingAttributes, houter]; simp [ofExcept, hinfo, hversion]⟩
  | ok version =>
  obtain ⟨v, verEnd⟩ := version
  cases hsubject : derTlv der verEnd 0x30 with
  | error e =>
    left
    exact ⟨e, by
      rw [normalizeMissingAttributes, houter]; simp [ofExcept, hinfo, hversion, hsubject]⟩
  | ok subject =>
  obtain ⟨s, subjEnd⟩ := subject
  cases hpublicKey : derTlv der subjEnd 0x30 with
  | error e =>
    left
    exact ⟨e, by
      rw [normalizeMissingAttributes, houter]
      simp [ofExcept, hinfo, hversion, hsubject, hpublicKey]⟩
  | ok publicKey =>
  obtain ⟨k, spkiEnd⟩ := publicKey
  right
  by_cases hend : spkiEnd ≠ ciEnd
  · left
    rw [normalizeMissingAttributes, houter]
    simp [ofExcept, hinfo, hversion, hsubject, hpublicKey, hend]
  · right
    rw [not_not.1 hend] at hpublicKey
    exact exists_layout houter hinfo hversion hsubject hpublicKey

/-! ### Panics -/

/-- A layout without attributes whose request information runs over the end of the request. -/
def RunsOver (der : List UInt8) : Prop :=
  ∃ l : Layout, l.attributes = [] ∧ l.Overruns ∧ l.bytes = der

theorem normalizeMissingAttributes_of_runsOver {der : List UInt8} (h : RunsOver der) :
    normalizeMissingAttributes der = .panic := by
  obtain ⟨l, hattributes, hover, rfl⟩ := h
  rw [normalizeMissingAttributes_layout, if_neg (not_not.2 hattributes)]
  exact if_pos hover

theorem normalizeMissingAttributes_returns {der : List UInt8} (h : ¬ RunsOver der) :
    (normalizeMissingAttributes der).Returns := by
  rcases normalizeMissingAttributes_cases der with ⟨e, heq⟩ | heq | ⟨l, hattributes, rfl⟩
  · rw [heq]
    trivial
  · rw [heq]
    trivial
  · have hover : ¬ l.outerSize < l.info.length := fun hover => h ⟨l, hattributes, hover, rfl⟩
    rw [normalizeMissingAttributes_layout, if_neg (not_not.2 hattributes), if_neg hover]
    trivial

theorem returns_ofExcept {ε α : Type} (x : Except ε α) : (ofExcept x).Returns := by
  cases x <;> trivial

variable (lib : Asn1Lib)

theorem extractCertReqInfoTbs_returns (der : List UInt8) : (extractCertReqInfoTbs der).Returns := by
  unfold extractCertReqInfoTbs
  apply Outcome.returns_bind (returns_ofExcept _)
  intro outer houter
  apply Outcome.returns_bind (returns_ofExcept _)
  intro info hinfo
  have hbounds := derTlv_bounds (ofExcept_eq_ok hinfo)
  show (slice der outer.1 info.2).Returns
  unfold slice
  rw [if_pos (by omega)]
  trivial

theorem parseCsr_of_error {der : List UInt8} {e : String} (h : lib.requestFromDer der = .error e)
    (hnormalized : (normalizeMissingAttributes der).Returns) : (parseCsr lib der).Returns := by
  have hfallback : (parseCsrDerFallback lib der).Returns :=
    Outcome.returns_bind hnormalized fun _ _ => returns_ofExcept _
  unfold parseCsr
  split_ifs
  · trivial
  · rw [h]
    dsimp only
    generalize parseCsrDerFallback lib der = fallback at hfallback ⊢
    cases fallback <;> exact hfallback

/-- **Parsing a request returns** exactly if x509-parser accepts it, or the request information does
not run over the end of a request without attributes.  The bytes that a request signs are always
found or refused. -/
theorem parseCsr_returns_iff (der : List UInt8) :
    ((parseCsr lib der).Returns ∧ (parseCsrSubjectDn lib der).Returns ∧
        (extractCertReqInfoTbs der).Returns ↔
      (∃ request, lib.requestFromDer der = .ok request) ∨ ¬ RunsOver der) ∧
    ((normalizeMissingAttributes der).Returns ↔ ¬ RunsOver der) := by
  have hnormalized : (normalizeMissingAttributes der).Returns ↔ ¬ RunsOver der := by
    constructor
    · intro hreturns hover
      rw [normalizeMissingAttributes_of_runsOver hover] at hreturns
      exact hreturns
    · exact normalizeMissingAttributes_returns
  refine ⟨?_, hnormalized⟩
  cases hrequest : lib.requestFromDer der with
  | ok request =>
    have hparse : (parseCsr lib der).Returns := by
      unfold parseCsr
      split_ifs
      · trivial
      · rw [hrequest]
        exact returns_ofExcept _
    have hsubject : (parseCsrSubjectDn lib der).Returns := by
      unfold parseCsrSubjectDn
      rw [hrequest]
      exact returns_ofExcept _
    exact ⟨fun _ => Or.inl ⟨request, rfl⟩,
      fun _ => ⟨hparse, hsubject, extractCertReqInfoTbs_returns der⟩⟩
  | error e =>
    have hfallback : ∃ f : List UInt8 → Except Error DistinguishedName, parseCsrSubjectDn lib der
        = normalizeMissingAttributes der >>= fun normalized => ofExcept (f normalized) := by
      unfold parseCsrSubjectDn
      rw [hrequest]
      exact ⟨_, rfl⟩
    obtain ⟨f, hsubject⟩ := hfallback
    constructor
    · rintro ⟨-, hreturns, -⟩
      right
      intro hover
      rw [hsubject, normalizeMissingAttributes_of_runsOver hover] at hreturns
      exact hreturns
    · intro h
      have hover : ¬ RunsOver der := h.resolve_left fun ⟨_, hok⟩ => by cases hok
      refine ⟨parseCsr_of_error lib hrequest (hnormalized.2 hover), ?_,
        extractCertReqInfoTbs_returns der⟩
      rw [hsubject]
      exact Outcome.returns_bind (hnormalized.2 hover) fun _ _ => returns_ofExcept _

/-- A request of two octets around a request information of nine. -/
def overrunningRequest : List UInt8 :=
  [0x30, 0x02, 0x30, 0x07, 0x02, 0x01, 0x00, 0x30, 0x00, 0x30, 0x00]

/-- **The slice behind the request information ends before it begins.** -/
theorem parseCsr_panics_overrun :
    parseCsr Reader.derReader overrunningRequest = .panic ∧
      parseCsrSubjectDn Reader.derReader overrunningRequest = .panic := by
  constructor <;> decide +kernel

end Ostrich.X509
