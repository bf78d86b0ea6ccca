import Ostrich.X509.Csr
import Ostrich.X509.Reader

/-!
# The names of a CSR

* `generalNamesLoop_fuel`, `extensionsLoop_fuel`: the fuel of the two loops is enough, since every
  element that is read is taken off the front;
* `parseCsr_extensionRequest`: the names of a request whose extensionRequest attribute holds one
  subjectAltName extension are the texts of its general names.
-/

namespace Ostrich.X509

open Der

/-! ### Fuel -/

section

variable (lib : Asn1Lib)

/-- More fuel than octets changes nothing. -/
theorem generalNamesLoop_fuel : ∀ (fuel : ℕ) (der : List UInt8) (sans : List String),
    der.length ≤ fuel → generalNamesLoop lib fuel der sans
      = generalNamesLoop lib der.length der sans := by
  intro fuel
  induction fuel using Nat.strong_induction_on with
  | _ fuel ih =>
  intro der sans hfuel
  cases der with
  | nil => cases fuel <;> simp [generalNamesLoop]
  | cons b der =>
    obtain ⟨fuel, rfl⟩ : ∃ k, fuel = k + 1 := ⟨fuel - 1, by simp at hfuel; omega⟩
    rw [List.length_cons, generalNamesLoop, generalNamesLoop, if_neg (by simp),
      if_neg (by simp)]
    cases hname : lib.generalNameFromDer (b :: der) with
    | error e => rfl
    | ok read =>
      obtain ⟨rest, gn⟩ := read
      have hrest := lib.generalName_rest _ _ _ hname
      rw [List.length_cons] at hrest hfuel
      have hstep (sans : List String) :
          generalNamesLoop lib fuel rest sans = generalNamesLoop lib der.length rest sans := by
        rw [ih fuel (by omega) rest sans (by omega), ih der.length (by omega) rest sans (by omega)]
      dsimp only
      cases fmtGeneralName gn <;> exact hstep _

theorem extensionsLoop_fuel : ∀ (fuel : ℕ) (der : List UInt8) (sans : List String),
    der.length ≤ fuel → extensionsLoop lib fuel der sans
      = extensionsLoop lib der.length der sans := by
  intro fuel
  induction fuel using Nat.strong_induction_on with
  | _ fuel ih =>
  intro der sans hfuel
  cases der with
  | nil => cases fuel <;> simp [extensionsLoop]
  | cons b der =>
    obtain ⟨fuel, rfl⟩ : ∃ k, fuel = k + 1 := ⟨fuel - 1, by simp at hfuel; omega⟩
    rw [List.length_cons, extensionsLoop, extensionsLoop, if_neg (by simp), if_neg (by simp)]
    cases hseq : lib.sequenceFromDer (b :: der) with
    | error e => rfl
    | ok read =>
      obtain ⟨rest, content⟩ := read
      have hrest := lib.sequence_rest _ _ _ hseq
      rw [List.length_cons] at hrest hfuel
      have hstep (sans : List String) :
          extensionsLoop lib fuel rest sans = extensionsLoop lib der.length rest sans := by
        rw [ih fuel (by omega) rest sans (by omega), ih der.length (by omega) rest sans (by omega)]
      dsimp only [parseErr, bind, Except.bind]
      simp only [hstep]

end

/-! ### The names of an extensionRequest -/

/-- What the decoders do with the elements of an extensionRequest, for contents of less than
`2^32` octets. -/
structure DecodesSans (lib : Asn1Lib) : Prop where
  set : ∀ content rest, content.length < 2 ^ 32 →
    lib.setFromDer (tlv 0x31 content ++ rest) = .ok (rest, content)
  sequence : ∀ content rest, content.length < 2 ^ 32 →
    lib.sequenceFromDer (tlv 0x30 content ++ rest) = .ok (rest, content)
  octetString : ∀ content rest, content.length < 2 ^ 32 →
    lib.octetStringFromDer (tlv 0x04 content ++ rest) = .ok (rest, content)
  subjectAltName : ∀ rest, lib.oidFromDer (tlv 0x06 subjectAltNameOid ++ rest)
    = .ok (rest, "2.5.29.17")
  dnsName : ∀ (name : List Char) rest, (∀ c ∈ name, c.toNat < 128) → name.length < 2 ^ 32 →
    lib.generalNameFromDer (tlv 0x82 (name.map fun c => UInt8.ofNat c.toNat) ++ rest)
      = .ok (rest, .DNSName (String.ofList name))
  ipAddress : ∀ ip rest, ip.length < 2 ^ 32 →
    lib.generalNameFromDer (tlv 0x87 ip ++ rest) = .ok (rest, .IPAddress ip)

/-- The general name is read with the text `text`. -/
def PrintedAs (lib : Asn1Lib) (name : UInt8 × List UInt8) (text : String) : Prop :=
  ∀ rest, ∃ gn, lib.generalNameFromDer (tlv name.1 name.2 ++ rest) = .ok (rest, gn) ∧
    fmtGeneralName gn = some text

variable {lib : Asn1Lib}

theorem generalNames_cons (name : UInt8 × List UInt8) (names : List (UInt8 × List UInt8)) :
    generalNames (name :: names) = tlv name.1 name.2 ++ generalNames names := rfl

theorem length_generalNames_le {names : List (UInt8 × List UInt8)} {bound : ℕ}
    (h : ∀ name ∈ names, name.2.length ≤ bound) :
    (generalNames names).length ≤ names.length * (bound + 6) := by
  induction names with
  | nil => simp [generalNames]
  | cons name names ih =>
    have hname := length_tlv_le name.1 name.2
    have hbound := h name (List.mem_cons_self ..)
    have hrest := ih fun n hn => h n (List.mem_cons_of_mem _ hn)
    rw [generalNames_cons, List.length_append, List.length_cons, Nat.succ_mul]
    omega

/-- The loop prints the general names one after another. -/
theorem generalNamesLoop_generalNames {names : List (UInt8 × List UInt8)} {texts : List String}
    (h : List.Forall₂ (PrintedAs lib) names texts) : ∀ (fuel : ℕ) (sans : List String),
    names.length ≤ fuel → generalNamesLoop lib fuel (generalNames names) sans = sans ++ texts := by
  induction h with
  | nil =>
    intro fuel sans _
    cases fuel <;> simp [generalNames, generalNamesLoop]
  | @cons name text names texts hname _ ih =>
    intro fuel sans hfuel
    obtain ⟨fuel, rfl⟩ : ∃ k, fuel = k + 1 := ⟨fuel - 1, by simp at hfuel; omega⟩
    obtain ⟨gn, hread, htext⟩ := hname (generalNames names)
    rw [generalNames_cons, generalNamesLoop, if_neg (by simp [tlv]), hread]
    dsimp only
    rw [htext]
    dsimp only
    rw [ih fuel _ (by simpa using hfuel), List.append_assoc, List.singleton_append]

theorem length_le_generalNames (names : List (UInt8 × List UInt8)) :
    names.length ≤ (generalNames names).length := by
  induction names with
  | nil => exact Nat.zero_le _
  | cons name names ih =>
    rw [generalNames_cons, List.length_append, List.length_cons, tlv, List.length_cons]
    omega

theorem sansOfExtension_generalNames (hlib : DecodesSans lib) {names : List (UInt8 × List UInt8)}
    {texts : List String} (h : List.Forall₂ (PrintedAs lib) names texts)
    (hlen : (generalNames names).length < 2 ^ 31) :
    sansOfExtension lib (tlv 0x04 (tlv 0x30 (generalNames names))) [] = .ok texts := by
  have hseq := length_tlv_le 0x30 (generalNames names)
  have hoctet := hlib.octetString (tlv 0x30 (generalNames names)) [] (by omega)
  have hsan := hlib.sequence (generalNames names) [] (by omega)
  rw [List.append_nil] at hoctet hsan
  unfold sansOfExtension
  rw [if_neg (by simp [tlv])]
  dsimp only [pure, Except.pure, bind, Except.bind]
  rw [hoctet]
  dsimp only [parseErr]
  rw [hsan]
  dsimp only
  rw [generalNamesLoop_generalNames h _ _ (length_le_generalNames names), List.nil_append]

/-- The loop over the extensions, if there is only this one. -/
theorem extensionsLoop_sanExtension (hlib : DecodesSans lib) {names : List (UInt8 × List UInt8)}
    {texts : List String} (h : List.Forall₂ (PrintedAs lib) names texts)
    (hlen : (generalNames names).length < 2 ^ 31) (fuel : ℕ) :
    extensionsLoop lib (fuel + 1) (sanExtension names) [] = .ok texts := by
  have hseq := length_tlv_le 0x30 (generalNames names)
  have hoctets := length_tlv_le 0x04 (tlv 0x30 (generalNames names))
  have hoid : (tlv 0x06 subjectAltNameOid).length = 5 := by decide
  have hextension := hlib.sequence (tlv 0x06 subjectAltNameOid
    ++ tlv 0x04 (tlv 0x30 (generalNames names))) [] (by rw [List.length_append]; omega)
  rw [List.append_nil] at hextension
  rw [extensionsLoop, if_neg (by simp [sanExtension, tlv]), sanExtension, hextension]
  dsimp only [parseErr, bind, Except.bind]
  rw [hlib.subjectAltName]
  dsimp only
  rw [if_pos rfl, sansOfExtension_generalNames hlib h hlen]
  cases fuel <;> simp [extensionsLoop]

/-- **The names of an extensionRequest** that holds one subjectAltName extension. -/
theorem extractSans_extensionRequest (hlib : DecodesSans lib) {names : List (UInt8 × List UInt8)}
    {texts : List String} (h : List.Forall₂ (PrintedAs lib) names texts)
    (hlen : (generalNames names).length < 2 ^ 31) :
    extractSansFromExtensionRequest lib (extensionRequest names) = .ok texts := by
  have hext : (sanExtension names).length ≤ (generalNames names).length + 23 := by
    have hseq := length_tlv_le 0x30 (generalNames names)
    have hoctets := length_tlv_le 0x04 (tlv 0x30 (generalNames names))
    have hoid : (tlv 0x06 subjectAltNameOid).length = 5 := by decide
    have hvalue := length_tlv_le 0x30 (tlv 0x06 subjectAltNameOid
      ++ tlv 0x04 (tlv 0x30 (generalNames names)))
    rw [List.length_append] at hvalue
    rw [sanExtension]
    omega
  have hexts := length_tlv_le 0x30 (sanExtension names)
  have hset := hlib.set (tlv 0x30 (sanExtension names)) [] (by omega)
  have hextensions := hlib.sequence (sanExtension names) [] (by omega)
  rw [List.append_nil] at hset hextensions
  obtain ⟨fuel, hfuel⟩ : ∃ fuel, (sanExtension names).length = fuel + 1 := ⟨_, rfl⟩
  unfold extractSansFromExtensionRequest extensionRequest
  rw [hset]
  dsimp only [parseErr, bind, Except.bind]
  rw [hextensions]
  dsimp only
  rw [hfuel]
  exact extensionsLoop_sanExtension hlib h hlen fuel

/-- Other attributes have no names. -/
theorem extractSansFromCsr_eq_ok {names : List (UInt8 × List UInt8)} {texts : List String}
    (hone : extractSansFromExtensionRequest lib (extensionRequest names) = .ok texts) :
    ∀ (attributes : List (String × List UInt8)) (sans : List String),
    (attributes.filter fun a => a.1 = extensionRequestOid)
      = [(extensionRequestOid, extensionRequest names)] →
    extractSansFromCsr lib attributes sans = .ok (sans ++ texts) := by
  have hnone : ∀ (attributes : List (String × List UInt8)) (sans : List String),
      (attributes.filter fun a => a.1 = extensionRequestOid) = [] →
      extractSansFromCsr lib attributes sans = .ok sans := by
    intro attributes
    induction attributes with
    | nil => intro sans _; rfl
    | cons a attributes ih =>
      intro sans h
      rw [List.filter_cons] at h
      split_ifs at h with ha
      rw [extractSansFromCsr, if_neg (by simpa using ha)]
      simpa using ih sans h
  intro attributes
  induction attributes with
  | nil => intro sans h; cases h
  | cons a attributes ih =>
    intro sans h
    rw [List.filter_cons] at h
    split_ifs at h with ha
    · obtain ⟨rfl, hrest⟩ := List.cons.inj h
      rw [extractSansFromCsr, if_pos rfl, hone]
      exact hnone _ _ hrest
    · rw [extractSansFromCsr, if_neg (by simpa using ha)]
      simpa using ih sans h

/-- **The names of a request** with one extensionRequest attribute. -/
theorem parseCsr_extensionRequest (hlib : DecodesSans lib) {names : List (UInt8 × List UInt8)}
    {texts : List String} (h : List.Forall₂ (PrintedAs lib) names texts)
    (hlen : (generalNames names).length < 2 ^ 31) {der : List UInt8} (hne : der ≠ [])
    {request : X509Request} (hrequest : lib.requestFromDer der = .ok request)
    (hattributes : (request.attributes.filter fun a => a.1 = extensionRequestOid)
      = [(extensionRequestOid, extensionRequest names)]) :
    ∃ csr, parseCsr lib der = .ok csr ∧ csr.subjectAlternativeNames = texts := by
  have hsans := extractSansFromCsr_eq_ok (extractSans_extensionRequest hlib h hlen)
    request.attributes [] hattributes
  unfold parseCsr
  rw [if_neg hne, hrequest]
  dsimp only
  rw [hsans]
  exact ⟨_, rfl, List.nil_append _⟩

/-! ### The reader -/

namespace Reader

theorem element_tlv (tag : UInt8) {content : List UInt8} (h : content.length < 2 ^ 32)
    (rest : List UInt8) : element tag (tlv tag content ++ rest) = .ok (rest, content) := by
  rw [element, readTlv_tlv tag h]
  exact if_pos rfl

theorem decodesSans_derReader : DecodesSans derReader where
  set content rest h := element_tlv 0x31 h rest
  sequence content rest h := element_tlv 0x30 h rest
  octetString content rest h := element_tlv 0x04 h rest
  subjectAltName rest := by
    have hread := element_tlv 0x06 (show subjectAltNameOid.length < 2 ^ 32 by decide) rest
    have htext : oidText subjectAltNameOid = "2.5.29.17" := by decide +kernel
    simp [derReader, hread, Except.map, htext]
  dnsName name rest hascii h := by
    have hbyte {c : Char} (hc : c ∈ name) : (UInt8.ofNat c.toNat).toNat = c.toNat := by
      have := hascii c hc
      rw [UInt8.toNat_ofNat']
      omega
    have htext : asciiText (name.map fun c => UInt8.ofNat c.toNat)
        = .ok (String.ofList name) := by
      rw [asciiText, if_pos, List.map_map]
      · congr 2
        refine (List.map_congr_left fun c hc => ?_).trans (List.map_id name)
        rw [Function.comp_apply, hbyte hc, Char.ofNat_toNat, id]
      · rw [List.all_map, List.all_eq_true]
        intro c hc
        rw [Function.comp_apply, hbyte hc]
        exact decide_eq_true (hascii c hc)
    show generalName _ = _
    rw [generalName, readTlv_tlv 0x82 (by simpa using h)]
    dsimp only
    rw [if_pos rfl, htext]
    rfl
  ipAddress ip rest h := by
    show generalName _ = _
    rw [generalName, readTlv_tlv 0x87 h]
    rfl

end Reader

end Ostrich.X509
