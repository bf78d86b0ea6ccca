import Ostrich.Acme.Jws
import Ostrich.Lib.Outcome

/-!
# Thumbprint and key

A JWK that `jwkToSpkiDer` accepts is one of three forms (`accepted_of_jwkToSpkiDer`).  Its
thumbprint input determines the texts of its members, and these the octets, since base64url
without padding has one text for each byte string; its SubjectPublicKeyInfo determines the numbers
(RSA), the curve and the point octets `x || y` (EC), or the key octets (OKP).

The two disagree on `AmbiguousKeys`: RSA members that differ in leading zero octets only, and EC
coordinates that are cut out of the same octets at different places.
`thumbprintInput_eq_iff_spki_eq` says that they disagree nowhere else.
-/

namespace Ostrich.Acme

open Der Text

/-! ### Accepted keys -/

/-- The JWK `jwk` is accepted and its SubjectPublicKeyInfo is `der`. -/
inductive Accepted (jwk : Jwk) (der : List UInt8) : Prop where
  | rsa {n e : String} {nBytes eBytes : List UInt8} (hkty : jwk.kty = "RSA")
      (hn : jwk.n = some n) (he : jwk.e = some e) (hnb : Base64.decode n = some nBytes)
      (heb : Base64.decode e = some eBytes)
      (hder : der = spki rsaAlgorithm (rsaPublicKey (ofBytes nBytes) (ofBytes eBytes)))
  | ec {crv x y : String} {xBytes yBytes oid : List UInt8} (hkty : jwk.kty = "EC")
      (hcrv : jwk.crv = some crv) (hx : jwk.x = some x) (hy : jwk.y = some y)
      (hxb : Base64.decode x = some xBytes) (hyb : Base64.decode y = some yBytes)
      (hoid : curveOid crv = .ok oid)
      (hder : der = spki (ecAlgorithm oid) (0x04 :: (xBytes ++ yBytes)))
  | okp {x : String} {xBytes : List UInt8} (hkty : jwk.kty = "OKP")
      (hcrv : jwk.crv.getD "Ed25519" = "Ed25519") (hx : jwk.x = some x)
      (hxb : Base64.decode x = some xBytes) (hder : der = spki ed25519Algorithm xBytes)

theorem jwkParameter_eq_ok {param : Option String} {missing value : String}
    (h : jwkParameter param missing = .ok value) : param = some value := by
  cases param with
  | none => cases h
  | some v => rw [Except.ok.inj h]

theorem decodeParameter_eq_ok {lib : CryptoLib} {value failed : String} {bytes : List UInt8}
    (h : decodeParameter lib value failed = .ok bytes) : Base64.decode value = some bytes := by
  unfold decodeParameter decodeBase64url at h
  cases hd : Base64.decode value with
  | none => rw [hd] at h; cases h
  | some b => rw [hd] at h; rw [Except.ok.inj h]

theorem spkiToDer_eq_ok {lib : CryptoLib} {algorithm key der : List UInt8} {failed : String}
    (h : spkiToDer lib algorithm key failed = .ok der) :
    der = spki algorithm key ∧ der.length ≤ derMaxLength := by
  unfold spkiToDer at h
  split_ifs at h with hlen
  obtain rfl := Except.ok.inj h
  exact ⟨rfl, hlen⟩

theorem jwkRsaToSpki_eq_ok {lib : CryptoLib} {jwk : Jwk} {der : List UInt8}
    (hkty : jwk.kty = "RSA") (h : jwkRsaToSpki lib jwk = .ok der) :
    Accepted jwk der ∧ der.length ≤ derMaxLength := by
  unfold jwkRsaToSpki at h
  obtain ⟨n, hn, h⟩ := bind_eq_ok h
  obtain ⟨e, he, h⟩ := bind_eq_ok h
  obtain ⟨nBytes, hnb, h⟩ := bind_eq_ok h
  obtain ⟨eBytes, heb, h⟩ := bind_eq_ok h
  dsimp only at h
  split at h
  · cases h
  · obtain ⟨hder, hlen⟩ := spkiToDer_eq_ok h
    exact ⟨.rsa hkty (jwkParameter_eq_ok hn) (jwkParameter_eq_ok he) (decodeParameter_eq_ok hnb)
      (decodeParameter_eq_ok heb) hder, hlen⟩

theorem bitStringFromBytes_eq_ok {lib : CryptoLib} {bytes key : List UInt8}
    (h : bitStringFromBytes lib bytes = .ok key) : key = bytes := by
  unfold bitStringFromBytes at h
  split_ifs at h
  exact (Except.ok.inj h).symm

theorem jwkEcToSpki_eq_ok {lib : CryptoLib} {jwk : Jwk} {der : List UInt8}
    (hkty : jwk.kty = "EC") (h : jwkEcToSpki lib jwk = .ok der) :
    Accepted jwk der ∧ der.length ≤ derMaxLength := by
  unfold jwkEcToSpki at h
  obtain ⟨crv, hcrv, h⟩ := bind_eq_ok h
  obtain ⟨x, hx, h⟩ := bind_eq_ok h
  obtain ⟨y, hy, h⟩ := bind_eq_ok h
  obtain ⟨xBytes, hxb, h⟩ := bind_eq_ok h
  obtain ⟨yBytes, hyb, h⟩ := bind_eq_ok h
  obtain ⟨oid, hoid, h⟩ := bind_eq_ok h
  obtain ⟨key, hkey, h⟩ := bind_eq_ok h
  obtain rfl := bitStringFromBytes_eq_ok hkey
  obtain ⟨hder, hlen⟩ := spkiToDer_eq_ok h
  exact ⟨.ec hkty (jwkParameter_eq_ok hcrv) (jwkParameter_eq_ok hx) (jwkParameter_eq_ok hy)
    (decodeParameter_eq_ok hxb) (decodeParameter_eq_ok hyb) hoid hder, hlen⟩

theorem jwkOkpToSpki_eq_ok {lib : CryptoLib} {jwk : Jwk} {der : List UInt8}
    (hkty : jwk.kty = "OKP") (h : jwkOkpToSpki lib jwk = .ok der) :
    Accepted jwk der ∧ der.length ≤ derMaxLength := by
  unfold jwkOkpToSpki at h
  obtain ⟨x, hx, h⟩ := bind_eq_ok h
  by_cases hcrv : jwk.crv.getD "Ed25519" = "Ed25519"
  · rw [if_neg (not_not.mpr hcrv)] at h
    dsimp only at h
    obtain ⟨xBytes, hxb, h⟩ := bind_eq_ok h
    split_ifs at h with hlen32
    · cases h
    · obtain ⟨key, hkey, h⟩ := bind_eq_ok h
      rw [bitStringFromBytes_eq_ok hkey] at h
      obtain ⟨hder, hlen⟩ := spkiToDer_eq_ok h
      exact ⟨.okp hkty hcrv (jwkParameter_eq_ok hx) (decodeParameter_eq_ok hxb) hder, hlen⟩
  · rw [if_pos hcrv] at h
    cases h

/-- **The three forms of an accepted key.** -/
theorem accepted_of_jwkToSpkiDer {lib : CryptoLib} {jwk : Jwk} {der : List UInt8}
    (h : jwkToSpkiDer lib jwk = .ok der) : Accepted jwk der ∧ der.length ≤ derMaxLength := by
  unfold jwkToSpkiDer at h
  split at h
  · exact jwkRsaToSpki_eq_ok ‹_› h
  · exact jwkEcToSpki_eq_ok ‹_› h
  · exact jwkOkpToSpki_eq_ok ‹_› h
  · cases h

/-! ### The thumbprint input -/

/-- A member text ends at the next quote. -/
theorem eq_of_quoted {a b r s : String} (ha : '"' ∉ a.toList) (hb : '"' ∉ b.toList)
    (h : a ++ ("\"" ++ r) = b ++ ("\"" ++ s)) : a = b ∧ r = s := by
  have hlist := congrArg String.toList h
  simp only [String.toList_append] at hlist
  obtain ⟨hab, hrs⟩ := eq_of_append_cons ha hb hlist
  exact ⟨String.toList_inj.mp hab, String.toList_inj.mp hrs⟩

theorem append_left_cancel {p a b : String} (h : p ++ a = p ++ b) : a = b := by
  have hlist := congrArg String.toList h
  simp only [String.toList_append] at hlist
  exact String.toList_inj.mp (List.append_cancel_left hlist)

/-- Base64url text has no quotes. -/
theorem quote_notMem {text : String} {bytes : List UInt8} (h : Base64.decode text = some bytes) :
    '"' ∉ text.toList := by
  intro hmem
  have := Base64.value_isSome_of_decode _ _ h _ hmem
  revert this
  decide

/-- The canonical text of an RSA key. -/
def rsaText (n e : String) : String :=
  "\x7b\"e\":\"" ++ (e ++ ("\"" ++ (",\"kty\":\"RSA\",\"n\":\"" ++ (n ++ ("\"" ++ "\x7d")))))

/-- The canonical text of an EC key. -/
def ecText (crv x y : String) : String :=
  "\x7b\"crv\":\"" ++ (crv ++ ("\"" ++ (",\"kty\":\"EC\",\"x\":\"" ++ (x ++ ("\""
    ++ (",\"y\":\"" ++ (y ++ ("\"" ++ "\x7d"))))))))

/-- The canonical text of an OKP key. -/
def okpText (crv x : String) : String :=
  "\x7b\"crv\":\"" ++ (crv ++ ("\"" ++ (",\"kty\":\"OKP\",\"x\":\"" ++ (x ++ ("\"" ++ "\x7d")))))

theorem rsaText_inj {n e n' e' : String} (hn : '"' ∉ n.toList) (he : '"' ∉ e.toList)
    (hn' : '"' ∉ n'.toList) (he' : '"' ∉ e'.toList) (h : rsaText n e = rsaText n' e') :
    n = n' ∧ e = e' := by
  obtain ⟨rfl, hrest⟩ := eq_of_quoted he he' (append_left_cancel h)
  obtain ⟨rfl, -⟩ := eq_of_quoted hn hn' (append_left_cancel hrest)
  exact ⟨rfl, rfl⟩

theorem ecText_inj {crv x y crv' x' y' : String} (hcrv : '"' ∉ crv.toList)
    (hcrv' : '"' ∉ crv'.toList) (hx : '"' ∉ x.toList) (hx' : '"' ∉ x'.toList)
    (hy : '"' ∉ y.toList) (hy' : '"' ∉ y'.toList) (h : ecText crv x y = ecText crv' x' y') :
    crv = crv' ∧ x = x' ∧ y = y' := by
  obtain ⟨rfl, hafterCrv⟩ := eq_of_quoted hcrv hcrv' (append_left_cancel h)
  obtain ⟨rfl, hafterX⟩ := eq_of_quoted hx hx' (append_left_cancel hafterCrv)
  obtain ⟨rfl, -⟩ := eq_of_quoted hy hy' (append_left_cancel hafterX)
  exact ⟨rfl, rfl, rfl⟩

theorem okpText_inj {crv x crv' x' : String} (hcrv : '"' ∉ crv.toList)
    (hcrv' : '"' ∉ crv'.toList) (hx : '"' ∉ x.toList) (hx' : '"' ∉ x'.toList)
    (h : okpText crv x = okpText crv' x') : x = x' := by
  obtain ⟨rfl, hrest⟩ := eq_of_quoted hcrv hcrv' (append_left_cancel h)
  exact (eq_of_quoted hx hx' (append_left_cancel hrest)).1

theorem thumbprintInput_rsa {jwk : Jwk} {n e : String} (hkty : jwk.kty = "RSA")
    (hn : jwk.n = some n) (he : jwk.e = some e) : thumbprintInput jwk
      = .ok (utf8 (rsaText n e)) := by
  have hcanonical : canonicalJwk jwk = .ok (rsaText n e) := by
    unfold canonicalJwk
    rw [hkty, hn, he]
    have hkty : "\",\"kty\":\"RSA\",\"n\":\"" = "\"" ++ ",\"kty\":\"RSA\",\"n\":\"" := by
      decide
    have hend : "\"\x7d" = "\"" ++ "\x7d" := by decide
    refine congrArg Except.ok (String.toList_inj.mp ?_)
    rw [hkty, hend]
    simp only [rsaText, String.toList_append, List.append_assoc]
  rw [thumbprintInput, hcanonical]
  rfl

theorem thumbprintInput_ec {jwk : Jwk} {crv x y : String} (hkty : jwk.kty = "EC")
    (hcrv : jwk.crv = some crv) (hx : jwk.x = some x) (hy : jwk.y = some y) :
    thumbprintInput jwk = .ok (utf8 (ecText crv x y)) := by
  have hcanonical : canonicalJwk jwk = .ok (ecText crv x y) := by
    unfold canonicalJwk
    rw [hkty, hcrv, hx, hy]
    have hkty : "\",\"kty\":\"EC\",\"x\":\"" = "\"" ++ ",\"kty\":\"EC\",\"x\":\"" := by decide
    have hy : "\",\"y\":\"" = "\"" ++ ",\"y\":\"" := by decide
    have hend : "\"\x7d" = "\"" ++ "\x7d" := by decide
    refine congrArg Except.ok (String.toList_inj.mp ?_)
    rw [hkty, hy, hend]
    simp only [ecText, String.toList_append, List.append_assoc]
  rw [thumbprintInput, hcanonical]
  rfl

theorem thumbprintInput_okp {jwk : Jwk} {x : String} (hkty : jwk.kty = "OKP")
    (hx : jwk.x = some x) :
    thumbprintInput jwk = .ok (utf8 (okpText (jwk.crv.getD "Ed25519") x)) := by
  have hcanonical : canonicalJwk jwk = .ok (okpText (jwk.crv.getD "Ed25519") x) := by
    unfold canonicalJwk
    rw [hkty, hx]
    generalize jwk.crv.getD "Ed25519" = crv
    have hkty : "\",\"kty\":\"OKP\",\"x\":\"" = "\"" ++ ",\"kty\":\"OKP\",\"x\":\"" := by
      decide
    have hend : "\"\x7d" = "\"" ++ "\x7d" := by decide
    refine congrArg Except.ok (String.toList_inj.mp ?_)
    rw [hkty, hend]
    simp only [okpText, String.toList_append, List.append_assoc]
  rw [thumbprintInput, hcanonical]
  rfl

/-! ### The SubjectPublicKeyInfo -/

theorem length_le_length_tlv (tag : UInt8) (content : List UInt8) :
    content.length ≤ (tlv tag content).length := by
  rw [tlv, List.length_cons, List.length_append]
  omega

theorem spki_inj {algorithm key algorithm' key' : List UInt8}
    (hlen : (spki algorithm key).length ≤ derMaxLength)
    (hlen' : (spki algorithm' key').length ≤ derMaxLength)
    (h : spki algorithm key = spki algorithm' key') : algorithm = algorithm' ∧ key = key' := by
  have hbound {a k : List UInt8} (hl : (spki a k).length ≤ derMaxLength) :
      (tlv 0x30 a ++ tlv 0x03 (0 :: k)).length < 2 ^ 32 ∧ a.length < 2 ^ 32 ∧
        (0 :: k).length < 2 ^ 32 := by
    have h1 := length_le_length_tlv 0x30 (tlv 0x30 a ++ tlv 0x03 (0 :: k))
    have h2 := length_le_length_tlv 0x30 a
    have h3 := length_le_length_tlv 0x03 (0 :: k)
    rw [spki, derMaxLength] at hl
    rw [List.length_append] at h1 ⊢
    refine ⟨?_, ?_, ?_⟩ <;> omega
  obtain ⟨hc, ha, hk⟩ := hbound hlen
  obtain ⟨hc', ha', hk'⟩ := hbound hlen'
  obtain ⟨-, hcontent⟩ := tlv_inj hc hc' h
  obtain ⟨-, halg, hrest⟩ := tlv_append_inj ha ha' hcontent
  obtain ⟨-, hkey⟩ := tlv_inj hk hk' hrest
  exact ⟨halg, (List.cons.inj hkey).2⟩

theorem rsaPublicKey_inj {n e n' e' : ℕ} (hlen : (rsaPublicKey n e).length < 2 ^ 32)
    (h : rsaPublicKey n e = rsaPublicKey n' e') : n = n' ∧ e = e' := by
  have hbound {n e : ℕ} (hl : (rsaPublicKey n e).length < 2 ^ 32) :
      (tlv 0x02 (uintContent n) ++ tlv 0x02 (uintContent e)).length < 2 ^ 32 ∧
        (uintContent n).length < 2 ^ 32 ∧ (uintContent e).length < 2 ^ 32 := by
    have h1 := length_le_length_tlv 0x30 (tlv 0x02 (uintContent n) ++ tlv 0x02 (uintContent e))
    have h2 := length_le_length_tlv 0x02 (uintContent n)
    have h3 := length_le_length_tlv 0x02 (uintContent e)
    rw [rsaPublicKey] at hl
    rw [List.length_append] at h1 ⊢
    refine ⟨?_, ?_, ?_⟩ <;> omega
  obtain ⟨hc, hn, he⟩ := hbound hlen
  obtain ⟨hc', hn', he'⟩ := hbound (h ▸ hlen)
  obtain ⟨-, hcontent⟩ := tlv_inj hc hc' h
  obtain ⟨-, hnn, hrest⟩ := tlv_append_inj hn hn' hcontent
  obtain ⟨-, hee⟩ := tlv_inj he he' hrest
  exact ⟨by rw [← ofBytes_uintContent n, hnn, ofBytes_uintContent],
    by rw [← ofBytes_uintContent e, hee, ofBytes_uintContent]⟩

/-- The curve is determined by its OID. -/
theorem curveOid_eq_ok {crv : String} {oid : List UInt8} (h : curveOid crv = .ok oid) :
    (crv = "P-256" ∧ oid = [0x2a, 0x86, 0x48, 0xce, 0x3d, 0x03, 0x01, 0x07]) ∨
    (crv = "P-384" ∧ oid = [0x2b, 0x81, 0x04, 0x00, 0x22]) ∨
    (crv = "P-521" ∧ oid = [0x2b, 0x81, 0x04, 0x00, 0x23]) := by
  unfold curveOid at h
  split at h
  · exact .inl ⟨rfl, (Except.ok.inj h).symm⟩
  · exact .inr (.inl ⟨rfl, (Except.ok.inj h).symm⟩)
  · exact .inr (.inr ⟨rfl, (Except.ok.inj h).symm⟩)
  · cases h

theorem ecAlgorithm_inj {crv crv' : String} {oid oid' : List UInt8} (h : curveOid crv = .ok oid)
    (h' : curveOid crv' = .ok oid') (halg : ecAlgorithm oid = ecAlgorithm oid') : crv = crv' := by
  have hlen {crv : String} {oid : List UInt8} (h : curveOid crv = .ok oid) :
      oid.length < 2 ^ 32 := by
    rcases curveOid_eq_ok h with ⟨-, rfl⟩ | ⟨-, rfl⟩ | ⟨-, rfl⟩ <;> decide
  have hoid := (tlv_inj (hlen h) (hlen h') (List.append_cancel_left halg)).2
  rcases curveOid_eq_ok h with ⟨rfl, rfl⟩ | ⟨rfl, rfl⟩ | ⟨rfl, rfl⟩ <;>
    rcases curveOid_eq_ok h' with ⟨rfl, rfl⟩ | ⟨rfl, rfl⟩ | ⟨rfl, rfl⟩ <;>
    first | rfl | exact absurd hoid (by decide)

theorem rsaAlgorithm_ne_ec (oid : List UInt8) : rsaAlgorithm ≠ ecAlgorithm oid := by
  intro h
  have := (tlv_append_inj (by decide) (by decide) h).2.1
  revert this
  decide

/-! ### Agreement -/

/-- Two keys that one SubjectPublicKeyInfo stands for although their members differ: RSA numbers
that differ in leading zero octets, or EC coordinates on one curve with the same concatenation,
cut at different places. -/
inductive AmbiguousKeys (j k : Jwk) : Prop where
  | rsa {n e n' e' : String} {nBytes eBytes nBytes' eBytes' : List UInt8}
      (hkty : j.kty = "RSA") (hkty' : k.kty = "RSA") (hn : j.n = some n) (he : j.e = some e)
      (hn' : k.n = some n') (he' : k.e = some e')
      (hnb : Base64.decode n = some nBytes) (heb : Base64.decode e = some eBytes)
      (hnb' : Base64.decode n' = some nBytes') (heb' : Base64.decode e' = some eBytes')
      (hmodulus : nBytes.dropWhile (· = 0) = nBytes'.dropWhile (· = 0))
      (hexponent : eBytes.dropWhile (· = 0) = eBytes'.dropWhile (· = 0))
      (hne : nBytes ≠ nBytes' ∨ eBytes ≠ eBytes')
  | ec {crv x y x' y' : String} {xBytes yBytes xBytes' yBytes' : List UInt8}
      (hkty : j.kty = "EC") (hkty' : k.kty = "EC") (hcrv : j.crv = some crv)
      (hcrv' : k.crv = some crv) (hx : j.x = some x) (hy : j.y = some y) (hx' : k.x = some x')
      (hy' : k.y = some y') (hxb : Base64.decode x = some xBytes)
      (hyb : Base64.decode y = some yBytes) (hxb' : Base64.decode x' = some xBytes')
      (hyb' : Base64.decode y' = some yBytes')
      (hpoint : xBytes ++ yBytes = xBytes' ++ yBytes') (hne : xBytes ≠ xBytes')

theorem ed25519Algorithm_ne_ec (oid : List UInt8) : ed25519Algorithm ≠ ecAlgorithm oid := by
  intro h
  have := (tlv_append_inj (by decide) (by decide) ((List.append_nil _).trans h)).2.1
  revert this
  decide

theorem rsaText_ne_ecText {n e crv x y : String} : rsaText n e ≠ ecText crv x y := by
  intro h
  have hlist := congrArg String.toList h
  simp only [rsaText, ecText, String.toList_append] at hlist
  exact absurd (List.cons.inj (List.cons.inj (List.cons.inj hlist).2).2).1 (by decide)

theorem rsaText_ne_okpText {n e crv x : String} : rsaText n e ≠ okpText crv x := by
  intro h
  have hlist := congrArg String.toList h
  simp only [rsaText, okpText, String.toList_append] at hlist
  exact absurd (List.cons.inj (List.cons.inj (List.cons.inj hlist).2).2).1 (by decide)

theorem quote_notMem_crv {crv : String} {oid : List UInt8} (h : curveOid crv = .ok oid) :
    '"' ∉ crv.toList := by
  rcases curveOid_eq_ok h with ⟨rfl, -⟩ | ⟨rfl, -⟩ | ⟨rfl, -⟩ <;> decide

theorem ecText_ne_okpText {crv x y x' : String} {oid : List UInt8}
    (hoid : curveOid crv = .ok oid) :
    ecText crv x y ≠ okpText "Ed25519" x' := by
  intro h
  have hcrv := (eq_of_quoted (quote_notMem_crv hoid) (by decide) (append_left_cancel h)).1
  rcases curveOid_eq_ok hoid with ⟨rfl, -⟩ | ⟨rfl, -⟩ | ⟨rfl, -⟩ <;> exact absurd hcrv (by decide)

/-- Keys of different types agree: neither the texts nor the keys are equal. -/
theorem agree_of_ne {a b : String} {p q : List UInt8} {j k : Jwk} (ha : a ≠ b) (hp : p ≠ q)
    (hkty : j.kty ≠ k.kty) : ((utf8 a = utf8 b ↔ p = q) ↔ ¬AmbiguousKeys j k) := by
  have hleft : (utf8 a = utf8 b ↔ p = q) :=
    ⟨fun h => absurd (utf8_injective h) ha, fun h => absurd h hp⟩
  have hright : ¬AmbiguousKeys j k := by
    rintro (h | h)
    · exact hkty (h.trans (Eq.symm ‹_›))
    · exact hkty (h.trans (Eq.symm ‹_›))
  exact ⟨fun _ => hright, fun _ => hleft⟩

theorem agree_rsa {j k : Jwk} {n e n' e' : String} {nBytes eBytes nBytes' eBytes' : List UInt8}
    (hj : j.kty = "RSA") (hk : k.kty = "RSA") (hn : j.n = some n) (he : j.e = some e)
    (hn' : k.n = some n') (he' : k.e = some e') (hnb : Base64.decode n = some nBytes)
    (heb : Base64.decode e = some eBytes) (hnb' : Base64.decode n' = some nBytes')
    (heb' : Base64.decode e' = some eBytes')
    (hlen : (spki rsaAlgorithm (rsaPublicKey (ofBytes nBytes) (ofBytes eBytes))).length
      ≤ derMaxLength)
    (hlen' : (spki rsaAlgorithm (rsaPublicKey (ofBytes nBytes') (ofBytes eBytes'))).length
      ≤ derMaxLength) :
    ((utf8 (rsaText n e) = utf8 (rsaText n' e') ↔
        spki rsaAlgorithm (rsaPublicKey (ofBytes nBytes) (ofBytes eBytes))
          = spki rsaAlgorithm (rsaPublicKey (ofBytes nBytes') (ofBytes eBytes'))) ↔
      ¬AmbiguousKeys j k) := by
  -- equal texts give equal octets, so the question is whether the equal numbers have them
  have hnumbers : spki rsaAlgorithm (rsaPublicKey (ofBytes nBytes) (ofBytes eBytes))
        = spki rsaAlgorithm (rsaPublicKey (ofBytes nBytes') (ofBytes eBytes')) →
      ofBytes nBytes = ofBytes nBytes' ∧ ofBytes eBytes = ofBytes eBytes' := by
    intro h
    have hkey := (spki_inj hlen hlen' h).2
    refine rsaPublicKey_inj ?_ hkey
    have h1 := length_le_length_tlv 0x30 (tlv 0x30 rsaAlgorithm
      ++ tlv 0x03 (0 :: rsaPublicKey (ofBytes nBytes) (ofBytes eBytes)))
    have h2 := length_le_length_tlv 0x03 (0 :: rsaPublicKey (ofBytes nBytes) (ofBytes eBytes))
    rw [spki, derMaxLength] at hlen
    rw [List.length_append] at h1
    rw [List.length_cons] at h2
    omega
  constructor
  · rintro hagree (h | h)
    · rename_i hn₁ he₁ hn₂ he₂ hnb₁ heb₁ hnb₂ heb₂ hmodulus hexponent hne
      obtain rfl := Option.some.inj (hn.symm.trans hn₁)
      obtain rfl := Option.some.inj (he.symm.trans he₁)
      obtain rfl := Option.some.inj (hn'.symm.trans hn₂)
      obtain rfl := Option.some.inj (he'.symm.trans he₂)
      obtain rfl := Option.some.inj (hnb.symm.trans hnb₁)
      obtain rfl := Option.some.inj (heb.symm.trans heb₁)
      obtain rfl := Option.some.inj (hnb'.symm.trans hnb₂)
      obtain rfl := Option.some.inj (heb'.symm.trans heb₂)
      have hspki : spki rsaAlgorithm (rsaPublicKey (ofBytes nBytes) (ofBytes eBytes))
          = spki rsaAlgorithm (rsaPublicKey (ofBytes nBytes') (ofBytes eBytes')) := by
        rw [ofBytes_eq_iff.mpr hmodulus, ofBytes_eq_iff.mpr hexponent]
      obtain ⟨rfl, rfl⟩ := rsaText_inj (quote_notMem hnb) (quote_notMem heb) (quote_notMem hnb')
        (quote_notMem heb') (utf8_injective (hagree.mpr hspki))
      rcases hne with hne | hne
      · exact hne (Option.some.inj (hnb.symm.trans hnb'))
      · exact hne (Option.some.inj (heb.symm.trans heb'))
    · exact absurd (hj.symm.trans h) (by decide)
  · intro hambiguous
    constructor
    · intro h
      obtain ⟨rfl, rfl⟩ := rsaText_inj (quote_notMem hnb) (quote_notMem heb) (quote_notMem hnb')
        (quote_notMem heb') (utf8_injective h)
      rw [Option.some.inj (hnb.symm.trans hnb'), Option.some.inj (heb.symm.trans heb')]
    · intro h
      obtain ⟨hmodulus, hexponent⟩ := hnumbers h
      by_contra htext
      refine hambiguous (.rsa hj hk hn he hn' he' hnb heb hnb' heb' (ofBytes_eq_iff.mp hmodulus)
        (ofBytes_eq_iff.mp hexponent) ?_)
      by_contra hsame
      obtain ⟨rfl, rfl⟩ := not_or.mp hsame |>.imp not_not.mp not_not.mp
      rw [Base64.decode_injective hnb hnb', Base64.decode_injective heb heb'] at htext
      exact htext rfl

theorem agree_ec {j k : Jwk} {crv x y crv' x' y' : String}
    {xBytes yBytes xBytes' yBytes' oid oid' : List UInt8}
    (hj : j.kty = "EC") (hk : k.kty = "EC") (hcrv : j.crv = some crv) (hcrv' : k.crv = some crv')
    (hx : j.x = some x) (hy : j.y = some y) (hx' : k.x = some x') (hy' : k.y = some y')
    (hxb : Base64.decode x = some xBytes) (hyb : Base64.decode y = some yBytes)
    (hxb' : Base64.decode x' = some xBytes') (hyb' : Base64.decode y' = some yBytes')
    (hoid : curveOid crv = .ok oid) (hoid' : curveOid crv' = .ok oid')
    (hlen : (spki (ecAlgorithm oid) (0x04 :: (xBytes ++ yBytes))).length ≤ derMaxLength)
    (hlen' : (spki (ecAlgorithm oid') (0x04 :: (xBytes' ++ yBytes'))).length ≤ derMaxLength) :
    ((utf8 (ecText crv x y) = utf8 (ecText crv' x' y') ↔
        spki (ecAlgorithm oid) (0x04 :: (xBytes ++ yBytes))
          = spki (ecAlgorithm oid') (0x04 :: (xBytes' ++ yBytes'))) ↔ ¬AmbiguousKeys j k) := by
  have htext (h : utf8 (ecText crv x y) = utf8 (ecText crv' x' y')) :=
    ecText_inj (quote_notMem_crv hoid) (quote_notMem_crv hoid') (quote_notMem hxb)
      (quote_notMem hxb') (quote_notMem hyb) (quote_notMem hyb') (utf8_injective h)
  constructor
  · rintro hagree (h | h)
    · exact absurd (hj.symm.trans h) (by decide)
    · rename_i hcrv₁ hcrv₂ hx₁ hy₁ hx₂ hy₂ hxb₁ hyb₁ hxb₂ hyb₂ hpoint hne
      obtain rfl := Option.some.inj (hcrv.symm.trans hcrv₁)
      obtain rfl := Option.some.inj (hcrv'.symm.trans hcrv₂)
      obtain rfl := Option.some.inj (hx.symm.trans hx₁)
      obtain rfl := Option.some.inj (hy.symm.trans hy₁)
      obtain rfl := Option.some.inj (hx'.symm.trans hx₂)
      obtain rfl := Option.some.inj (hy'.symm.trans hy₂)
      obtain rfl := Option.some.inj (hxb.symm.trans hxb₁)
      obtain rfl := Option.some.inj (hyb.symm.trans hyb₁)
      obtain rfl := Option.some.inj (hxb'.symm.trans hxb₂)
      obtain rfl := Option.some.inj (hyb'.symm.trans hyb₂)
      obtain rfl := Except.ok.inj (hoid.symm.trans hoid')
      obtain ⟨-, rfl, -⟩ := htext (hagree.mpr (by rw [hpoint]))
      exact hne (Option.some.inj (hxb.symm.trans hxb'))
  · intro hambiguous
    constructor
    · intro h
      obtain ⟨rfl, rfl, rfl⟩ := htext h
      rw [Option.some.inj (hxb.symm.trans hxb'), Option.some.inj (hyb.symm.trans hyb'),
        Except.ok.inj (hoid.symm.trans hoid')]
    · intro h
      obtain ⟨halgorithm, hkey⟩ := spki_inj hlen hlen' h
      obtain rfl := ecAlgorithm_inj hoid hoid' halgorithm
      have hpoint := (List.cons.inj hkey).2
      by_cases hsame : xBytes = xBytes'
      · subst hsame
        obtain rfl := List.append_cancel_left hpoint
        rw [Base64.decode_injective hxb hxb', Base64.decode_injective hyb hyb']
      · exact absurd (.ec hj hk hcrv hcrv' hx hy hx' hy' hxb hyb hxb' hyb' hpoint hsame)
          hambiguous

theorem agree_okp {j k : Jwk} {x x' : String} {xBytes xBytes' : List UInt8} (hj : j.kty = "OKP")
    (hxb : Base64.decode x = some xBytes) (hxb' : Base64.decode x' = some xBytes')
    (hlen : (spki ed25519Algorithm xBytes).length ≤ derMaxLength)
    (hlen' : (spki ed25519Algorithm xBytes').length ≤ derMaxLength) :
    ((utf8 (okpText "Ed25519" x) = utf8 (okpText "Ed25519" x') ↔
        spki ed25519Algorithm xBytes = spki ed25519Algorithm xBytes') ↔ ¬AmbiguousKeys j k) := by
  have hright : ¬AmbiguousKeys j k := by
    rintro (h | h) <;> exact absurd (hj.symm.trans h) (by decide)
  refine ⟨fun _ => hright, fun _ => ⟨fun h => ?_, fun h => ?_⟩⟩
  · obtain rfl := okpText_inj (by decide) (by decide) (quote_notMem hxb) (quote_notMem hxb')
      (utf8_injective h)
    rw [Option.some.inj (hxb.symm.trans hxb')]
  · obtain rfl := (spki_inj hlen hlen' h).2
    rw [Base64.decode_injective hxb hxb']

/-- **Thumbprint and key agree exactly on unambiguous keys**: for two accepted JWKs, the thumbprint
inputs are equal if and only if the SubjectPublicKeyInfos are, unless the two are
`AmbiguousKeys`. -/
theorem thumbprintInput_eq_iff_spki_eq (lib : CryptoLib) (j k : Jwk) (p q : List UInt8)
    (hj : jwkToSpkiDer lib j = .ok p) (hk : jwkToSpkiDer lib k = .ok q) :
    ∃ a b, thumbprintInput j = .ok a ∧ thumbprintInput k = .ok b ∧
      ((a = b ↔ p = q) ↔ ¬AmbiguousKeys j k) := by
  obtain ⟨hja, hp⟩ := accepted_of_jwkToSpkiDer hj
  obtain ⟨hka, hq⟩ := accepted_of_jwkToSpkiDer hk
  rcases hja with ⟨hkty, hn, he, hnb, heb, rfl⟩ | ⟨hkty, hcrv, hx, hy, hxb, hyb, hoid, rfl⟩ |
      ⟨hkty, hcrv, hx, hxb, rfl⟩ <;>
    rcases hka with ⟨hkty', hn', he', hnb', heb', rfl⟩ |
      ⟨hkty', hcrv', hx', hy', hxb', hyb', hoid', rfl⟩ | ⟨hkty', hcrv', hx', hxb', rfl⟩
  · exact ⟨_, _, thumbprintInput_rsa hkty hn he, thumbprintInput_rsa hkty' hn' he',
      agree_rsa hkty hkty' hn he hn' he' hnb heb hnb' heb' hp hq⟩
  · exact ⟨_, _, thumbprintInput_rsa hkty hn he, thumbprintInput_ec hkty' hcrv' hx' hy',
      agree_of_ne rsaText_ne_ecText (fun h => rsaAlgorithm_ne_ec _ (spki_inj hp hq h).1)
        (by rw [hkty, hkty']; decide)⟩
  · exact ⟨_, _, thumbprintInput_rsa hkty hn he, thumbprintInput_okp hkty' hx',
      agree_of_ne rsaText_ne_okpText
        (fun h => absurd (spki_inj hp hq h).1 (by decide)) (by rw [hkty, hkty']; decide)⟩
  · exact ⟨_, _, thumbprintInput_ec hkty hcrv hx hy, thumbprintInput_rsa hkty' hn' he',
      agree_of_ne rsaText_ne_ecText.symm
        (fun h => rsaAlgorithm_ne_ec _ (spki_inj hp hq h).1.symm) (by rw [hkty, hkty']; decide)⟩
  · exact ⟨_, _, thumbprintInput_ec hkty hcrv hx hy, thumbprintInput_ec hkty' hcrv' hx' hy',
      agree_ec hkty hkty' hcrv hcrv' hx hy hx' hy' hxb hyb hxb' hyb' hoid hoid' hp hq⟩
  · refine ⟨_, _, thumbprintInput_ec hkty hcrv hx hy, thumbprintInput_okp hkty' hx', ?_⟩
    rw [hcrv']
    exact agree_of_ne (ecText_ne_okpText hoid)
      (fun h => ed25519Algorithm_ne_ec _ (spki_inj hp hq h).1.symm) (by rw [hkty, hkty']; decide)
  · exact ⟨_, _, thumbprintInput_okp hkty hx, thumbprintInput_rsa hkty' hn' he',
      agree_of_ne rsaText_ne_okpText.symm
        (fun h => absurd (spki_inj hp hq h).1 (by decide)) (by rw [hkty, hkty']; decide)⟩
  · refine ⟨_, _, thumbprintInput_okp hkty hx, thumbprintInput_ec hkty' hcrv' hx' hy', ?_⟩
    rw [hcrv]
    exact agree_of_ne (ecText_ne_okpText hoid').symm
      (fun h => ed25519Algorithm_ne_ec _ (spki_inj hp hq h).1) (by rw [hkty, hkty']; decide)
  · refine ⟨_, _, thumbprintInput_okp hkty hx, thumbprintInput_okp hkty' hx', ?_⟩
    rw [hcrv, hcrv']
    exact agree_okp hkty hxb hxb' hp hq

/-- The checks of `RsaPublicKey::new`: a modulus of at most 4096 bits that is odd, and an odd
exponent from 2 to `2^33 - 1` below it. -/
def rsaPublicKeyChecks (n e : ℕ) : Except String Unit :=
  if n.log2 ≥ 4096 then .error "modulus too large"
  else if e ≥ n ∨ n % 2 = 0 then .error "invalid modulus"
  else if e % 2 = 0 then .error "invalid exponent"
  else if e < 2 then .error "public exponent too small"
  else if e ≥ 2 ^ 33 then .error "public exponent too large"
  else .ok ()

/-- A library with these checks. -/
def checkedLib : CryptoLib :=
  ⟨id, fun _ _ _ _ _ => .ok true, rsaPublicKeyChecks, fun _ => "Invalid symbol", "overflow"⟩

/-- The RSA key `3233, 17`. -/
def smallRsaJwk : Jwk := { kty := "RSA", n := some "DKE", e := some "EQ" }

/-- The same key with a leading zero octet in the modulus. -/
def paddedRsaJwk : Jwk := { kty := "RSA", n := some "AAyh", e := some "EQ" }

theorem jwkToSpkiDer_smallRsaJwk :
    jwkToSpkiDer checkedLib smallRsaJwk = .ok (spki rsaAlgorithm (rsaPublicKey 3233 17)) := by
  decide +kernel

theorem jwkToSpkiDer_paddedRsaJwk :
    jwkToSpkiDer checkedLib paddedRsaJwk = .ok (spki rsaAlgorithm (rsaPublicKey 3233 17)) := by
  decide +kernel

/-- One key with two thumbprints. -/
theorem paddedRsaJwk_two_thumbprints :
    ∃ p, jwkToSpkiDer checkedLib smallRsaJwk = .ok p ∧
      jwkToSpkiDer checkedLib paddedRsaJwk = .ok p ∧
      thumbprintInput smallRsaJwk ≠ thumbprintInput paddedRsaJwk := by
  refine ⟨_, jwkToSpkiDer_smallRsaJwk, jwkToSpkiDer_paddedRsaJwk, ?_⟩
  rw [thumbprintInput_rsa rfl rfl rfl, thumbprintInput_rsa rfl rfl rfl]
  intro h
  exact absurd (rsaText_inj (by decide) (by decide) (by decide) (by decide)
    (utf8_injective (Except.ok.inj h))).1 (by decide)

theorem thumbprintInput_eq_iff_spki_eq_smallRsaJwk :
    ∃ a b, thumbprintInput smallRsaJwk = .ok a ∧ thumbprintInput paddedRsaJwk = .ok b ∧
      ((a = b ↔ spki rsaAlgorithm (rsaPublicKey 3233 17) = spki rsaAlgorithm (rsaPublicKey 3233 17))
        ↔ ¬AmbiguousKeys smallRsaJwk paddedRsaJwk) :=
  thumbprintInput_eq_iff_spki_eq checkedLib smallRsaJwk paddedRsaJwk _ _ jwkToSpkiDer_smallRsaJwk
    jwkToSpkiDer_paddedRsaJwk

end Ostrich.Acme
