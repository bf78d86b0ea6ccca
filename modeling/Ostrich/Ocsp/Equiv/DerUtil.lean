import Ostrich.Ocsp.Response

/-!
# What the encoders of the OCSP responder write

* `readTlv_tlv`: an element that is written is read back;
* `unsignedContent_eq_iff`: the octets of a serial number stay as they are exactly when they are the
  shortest ones of a number that is not negative (`Canonical`);
* `read_encodeCertId`: the fields of a CertID that is written (`SingleResponse.certId`) are read
  back.
-/

namespace Ostrich.Ocsp

open DerUtil

/-! ### Elements -/

namespace DerUtil

/-- **An element that is written is read back**, from the front of anything that starts with it. -/
theorem readTlv_tlv (tag : UInt8) {content : List UInt8} (h : content.length < 2 ^ 32)
    (rest : List UInt8) : readTlv (tlv tag content ++ rest) = some (tag, content, rest) := by
  have hvalue : readTlv.value tag content.length (content ++ rest) = some (tag, content, rest) := by
    rw [readTlv.value, if_neg (by rw [List.length_append]; omega), List.take_left, List.drop_left]
  unfold tlv derLength
  split_ifs with hlen
  · have hto : (UInt8.ofNat content.length).toNat = content.length := by
      rw [UInt8.toNat_ofNat']
      omega
    have hshort : UInt8.ofNat content.length < 0x80 := by
      rw [UInt8.lt_iff_toNat_lt, hto]
      exact hlen
    rw [List.singleton_append, List.cons_append, List.cons_append, readTlv, if_pos hshort, hto,
      hvalue]
  · set bytes := Der.minBytes content.length with hbytes
    have hlen4 : bytes.length ≤ 4 := Der.length_minBytes h
    have hvalueOf : Der.ofBytes bytes = content.length := Der.ofBytes_minBytes _
    have hpos : 0 < bytes.length := by
      refine List.length_pos_of_ne_nil fun hnil => ?_
      rw [hnil] at hvalueOf
      have : content.length = 0 := hvalueOf.symm
      omega
    -- the octet before a long length says how many octets it has
    have hfirst : ∀ k ≤ 4, ¬(0x80 ||| UInt8.ofNat k) < 0x80 ∧
        ((0x80 ||| UInt8.ofNat k) &&& 0x7F).toNat = k := by decide
    obtain ⟨hlong, hoctets⟩ := hfirst bytes.length hlen4
    dsimp only
    rw [List.cons_append, List.cons_append, List.cons_append, readTlv, if_neg hlong]
    dsimp only
    rw [hoctets, List.append_assoc, if_neg (by rw [List.length_append]; omega), List.take_left,
      List.drop_left, hvalueOf, hvalue]

/-! ### Serial numbers -/

/-- The shortest octets of a number that is not negative. -/
def Canonical : List UInt8 → Bool
  | [] => false
  | [b] => b < 0x80
  | b :: c :: _ => b < 0x80 && (b ≠ 0 || 0x80 ≤ c)

/-- The octets without leading zeros, after an octet that is not zero. -/
theorem unsignedContent_cons_ne {b : UInt8} (hb : b ≠ 0) (bytes : List UInt8) :
    unsignedContent (b :: bytes) =
      if b &&& 0x80 ≠ 0 then 0x00 :: b :: bytes else b :: bytes := by
  rw [unsignedContent, List.dropWhile_cons_of_neg (by simpa using hb)]

theorem unsignedContent_cons_zero (bytes : List UInt8) :
    unsignedContent (0 :: bytes) = unsignedContent bytes := by
  rw [unsignedContent, unsignedContent, List.dropWhile_cons_of_pos (by decide)]

theorem high_bit_iff (b : UInt8) : b &&& 0x80 ≠ 0 ↔ ¬b < 0x80 := by
  have hall : ∀ n < 256, UInt8.ofNat n &&& 0x80 ≠ 0 ↔ ¬UInt8.ofNat n < 0x80 := by
    decide +kernel
  have hb := hall b.toNat b.toNat_lt
  rwa [UInt8.ofNat_toNat] at hb

theorem length_unsignedContent_le (bytes : List UInt8) :
    (unsignedContent bytes).length ≤ bytes.length + 1 := by
  have hle : (bytes.dropWhile (· = 0)).length ≤ bytes.length :=
    (List.dropWhile_sublist _).length_le
  unfold unsignedContent
  split
  · simp
  · rename_i b rest heq
    rw [heq] at hle
    split_ifs
    · rw [List.length_cons]
      omega
    · omega

/-- The first octet is not zero: one with the high bit set gets a zero in front. -/
theorem unsignedContent_cons_eq_iff {b : UInt8} (hb : b ≠ 0) (bytes : List UInt8) :
    unsignedContent (b :: bytes) = b :: bytes ↔ b < 0x80 := by
  rw [unsignedContent_cons_ne hb]
  split_ifs with hhigh
  · refine iff_of_false (fun h => ?_) ((high_bit_iff b).mp hhigh)
    have hlen := congrArg List.length h
    simp at hlen
  · exact iff_of_true rfl (not_not.mp fun h => hhigh ((high_bit_iff b).mpr h))

/-- **The octets of a serial number are written as they are** exactly when they are canonical. -/
theorem unsignedContent_eq_iff (bytes : List UInt8) :
    unsignedContent bytes = bytes ↔ Canonical bytes = true := by
  match bytes with
  | [] => decide
  | [b] =>
    by_cases hb : b = 0
    · subst hb
      decide
    · rw [unsignedContent_cons_eq_iff hb, Canonical, decide_eq_true_iff]
  | b :: c :: rest =>
    by_cases hb : b = 0
    · subst hb
      rw [unsignedContent_cons_zero]
      have hcanonical : Canonical (0 :: c :: rest) = true ↔ 0x80 ≤ c := by
        simp [Canonical]
      rw [hcanonical]
      by_cases hc : c = 0
      · -- two zeros in front: one of them is dropped
        subst hc
        refine iff_of_false (fun h => ?_) (by decide)
        rw [unsignedContent_cons_zero] at h
        have hlen := length_unsignedContent_le rest
        rw [h] at hlen
        simp at hlen
      · rw [unsignedContent_cons_ne hc]
        split_ifs with hhigh
        · exact iff_of_true rfl (UInt8.not_lt.mp ((high_bit_iff c).mp hhigh))
        · refine iff_of_false (fun h => ?_) fun hle => ?_
          · have hlen := congrArg List.length h
            simp at hlen
          · exact hhigh ((high_bit_iff c).mpr (UInt8.not_lt.mpr hle))
    · rw [unsignedContent_cons_eq_iff hb]
      simp [Canonical, hb]

/-- The encoder writes the shortest octets of the number. -/
theorem uintContent_ofBytes (bytes : List UInt8) :
    Der.uintContent (Der.ofBytes bytes) = unsignedContent bytes := by
  unfold Der.uintContent unsignedContent
  rw [Der.minBytes_ofBytes]
  cases bytes.dropWhile (· = 0) with
  | nil => rfl
  | cons b rest =>
    have hiff : b.toNat < 128 ↔ ¬b &&& 0x80 ≠ 0 := by
      rw [high_bit_iff, not_not, UInt8.lt_iff_toNat_lt]
      rfl
    by_cases hb : b.toNat < 128
    · simp [hb, not_not.mp (hiff.mp hb)]
    · have hhigh := not_not.mp (mt hiff.mpr hb)
      simp [hb, hhigh]

end DerUtil

/-! ### CertIDs -/

/-- A CertID; the serial number as content octets. -/
structure CertId where
  hashAlgorithm : String
  issuerNameHash : List UInt8
  issuerKeyHash : List UInt8
  serialNumber : List UInt8
  deriving DecidableEq, Repr

/-- The CertID of a request. -/
def OcspRequest.certId (request : OcspRequest) : CertId :=
  ⟨request.hashAlgorithm.oid, request.issuerNameHash, request.issuerKeyHash, request.serialNumber⟩

/-- The CertID that is written for a response. -/
def SingleResponse.certId (resp : SingleResponse) : CertId :=
  ⟨resp.hashAlgorithm, resp.issuerNameHash, resp.issuerKeyHash, unsignedContent resp.serialNumber⟩

/-- Read a CertID: the content octets of the OID, the hashes and the serial number. -/
def readCertId (der : List UInt8) :
    Except Error (List UInt8 × List UInt8 × List UInt8 × List UInt8) := do
  let (certId, _) ← expect 0x30 der
  let (algId, afterAlg) ← expect 0x30 certId
  let (oidBytes, _) ← expect 0x06 algId
  let (issuerNameHash, afterName) ← expect 0x04 afterAlg
  let (issuerKeyHash, afterKey) ← expect 0x04 afterName
  let (serialNumber, _) ← expect 0x02 afterKey
  return (oidBytes, issuerNameHash, issuerKeyHash, serialNumber)

theorem expect_tlv (tag : UInt8) {content : List UInt8} (h : content.length < 2 ^ 32)
    (rest : List UInt8) : expect tag (tlv tag content ++ rest) = .ok (content, rest) := by
  rw [expect, readTlv_tlv tag h]
  exact if_pos rfl

theorem length_lt_tlv (tag : UInt8) (content : List UInt8) :
    content.length < (tlv tag content).length := by
  rw [tlv, List.length_cons, List.length_append]
  omega

/-- **The CertID that is written is read back.** -/
theorem read_encodeCertId {resp : SingleResponse} {der : List UInt8}
    (henc : encodeCertId resp = .ok der) (hlen : der.length < 2 ^ 32) (rest : List UInt8) :
    ∃ oidBytes, objectIdentifier resp.certId.hashAlgorithm = some oidBytes ∧
      readCertId (der ++ rest) = .ok (oidBytes, resp.certId.issuerNameHash,
        resp.certId.issuerKeyHash, resp.certId.serialNumber) := by
  obtain ⟨algId, hoid, henc⟩ := bind_eq_ok henc
  obtain rfl := Except.ok.inj henc
  unfold oid at hoid
  split at hoid
  · rename_i oidBytes hbytes
    obtain rfl := Except.ok.inj hoid
    refine ⟨oidBytes, hbytes, ?_⟩
    unfold seq octetString unsignedInteger at hlen ⊢
    set alg := tlv 0x06 oidBytes with halg
    set name := tlv 0x04 resp.issuerNameHash with hname
    set key := tlv 0x04 resp.issuerKeyHash with hkey
    set serial := tlv 0x02 (unsignedContent resp.serialNumber) with hserial
    -- every part is shorter than the whole
    have h₀ := length_lt_tlv 0x30 (tlv 0x30 (alg ++ null) ++ name ++ key ++ serial)
    have h₁ := length_lt_tlv 0x30 (alg ++ null)
    have h₂ := length_lt_tlv 0x06 oidBytes
    have h₃ := length_lt_tlv 0x04 resp.issuerNameHash
    have h₄ := length_lt_tlv 0x04 resp.issuerKeyHash
    have h₅ := length_lt_tlv 0x02 (unsignedContent resp.serialNumber)
    simp only [List.length_append] at h₀ h₁
    rw [← halg] at h₂
    rw [← hname] at h₃
    rw [← hkey] at h₄
    rw [← hserial] at h₅
    unfold readCertId
    rw [expect_tlv 0x30 (by simp only [List.length_append]; omega)]
    dsimp only [Bind.bind, Except.bind]
    rw [List.append_assoc, List.append_assoc, expect_tlv 0x30 (by rw [List.length_append]; omega)]
    dsimp only
    rw [halg, expect_tlv 0x06 (by omega)]
    dsimp only
    rw [hname, expect_tlv 0x04 (by omega)]
    dsimp only
    rw [hkey, expect_tlv 0x04 (by omega)]
    dsimp only
    rw [hserial, ← List.append_nil (tlv 0x02 _), expect_tlv 0x02 (by omega)]
    rfl
  · cases hoid

/-- A status of certificate 128, whose serial number needs a leading zero. -/
def highSerial : SingleResponse where
  serialNumber := [0x80]
  issuerNameHash := [0x01]
  issuerKeyHash := [0x02]
  hashAlgorithm := "1.3.14.3.2.26"
  certStatus := .Good
  thisUpdate := .ofMicros 0
  nextUpdate := none

theorem highSerial_read : ∃ der oidBytes, encodeCertId highSerial = .ok der ∧
    readCertId (der ++ [0xFF]) = .ok (oidBytes, [0x01], [0x02], [0x00, 0x80]) := by
  have hencode : encodeCertId highSerial = .ok [0x30, 0x15, 0x30, 0x09, 0x06, 0x05, 0x2B, 0x0E,
      0x03, 0x02, 0x1A, 0x05, 0x00, 0x04, 0x01, 0x01, 0x04, 0x01, 0x02, 0x02, 0x02, 0x00, 0x80] :=
    by decide +kernel
  obtain ⟨oidBytes, -, hread⟩ := read_encodeCertId hencode (by decide) [0xFF]
  exact ⟨_, oidBytes, hencode, hread⟩

end Ostrich.Ocsp
