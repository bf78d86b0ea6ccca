import Ostrich.Ocsp.Equiv.DerUtil
import Ostrich.Ocsp.Instance

/-!
# The nonce of a request

`HasExtensions` is the grammar of the requestExtensions field, element by element and with nothing
left over; `Refused` is what the parser makes of a field that it does not accept.

* `fromDer_of_nonce`: a request whose nonce extension holds an OCTET STRING of `n` octets is
  accepted exactly when `n ≤ 30`: the limit of 32 octets is applied to the encoded OCTET STRING;
* `fromDer_error_iff_refused`: when a request is rejected for its extensions;
* `nonceRule_iff`: the inputs on which the parser follows the rule for nonces.
-/

namespace Ostrich.Ocsp

open DerUtil

/-! ### The grammar of the extensions -/

/-- An extension; `critical` holds the content of the BOOLEAN, if there is one. -/
structure Extension where
  oid : List UInt8
  critical : Option (List UInt8)
  value : List UInt8

/-- The content octets of an Extension. -/
def IsExtension (content : List UInt8) (e : Extension) : Prop :=
  ∃ afterOid, readTlv content = some (0x06, e.oid, afterOid) ∧
    match e.critical with
    | none => readTlv afterOid = some (0x04, e.value, [])
    | some critical => ∃ afterCritical, readTlv afterOid = some (0x01, critical, afterCritical) ∧
        readTlv afterCritical = some (0x04, e.value, [])

/-- The content octets of an Extensions SEQUENCE. -/
inductive IsExtensions : List UInt8 → List Extension → Prop
  | nil : IsExtensions [] []
  | cons {cursor content rest : List UInt8} {e : Extension} {es : List Extension}
    (hread : readTlv cursor = some (0x30, content, rest)) (hhead : IsExtension content e)
    (htail : IsExtensions rest es) : IsExtensions cursor (e :: es)

/-- The rest of a TBSRequest is a requestExtensions field with these extensions. -/
def HasExtensions (afterList : List UInt8) (es : List Extension) : Prop :=
  ∃ extExplicit content, readTlv afterList = some (0xA2, extExplicit, []) ∧
    readTlv extExplicit = some (0x30, content, []) ∧ IsExtensions content es

/-- The scan stops at an extension that cannot be read, or at a nonce of a wrong length. -/
inductive RefusedList : List UInt8 → Prop
  | unreadable {cursor : List UInt8} (hne : cursor ≠ [])
    (hread : ∀ e, readExtension cursor ≠ .ok e) : RefusedList cursor
  | length {cursor value rest : List UInt8}
    (hread : readExtension cursor = .ok (nonceOid, value, rest))
    (hlen : value = [] ∨ 32 < value.length) : RefusedList cursor
  | later {cursor oid value rest : List UInt8}
    (hread : readExtension cursor = .ok (oid, value, rest)) (hoid : oid ≠ nonceOid)
    (hrest : RefusedList rest) : RefusedList cursor

/-- The field is a readable element that holds no Extensions SEQUENCE, or one that the scan does not
get through. -/
def Refused (afterList : List UInt8) : Prop :=
  ∃ extExplicit after, readTlv afterList = some (0xA2, extExplicit, after) ∧
    ((∀ content rest, readTlv extExplicit ≠ some (0x30, content, rest)) ∨
      ∃ content rest, readTlv extExplicit = some (0x30, content, rest) ∧ RefusedList content)

/-! ### Reading -/

theorem length_of_readTlv {input content rest : List UInt8} {tag : UInt8}
    (h : readTlv input = some (tag, content, rest)) : rest.length < input.length := by
  have hvalue {len : ℕ} {bytes : List UInt8} {t : UInt8}
      (h : readTlv.value t len bytes = some (tag, content, rest)) :
      rest.length ≤ bytes.length := by
    unfold readTlv.value at h
    split at h
    · cases h
    · obtain ⟨-, h⟩ := Prod.mk.inj (Option.some.inj h)
      obtain ⟨-, rfl⟩ := Prod.mk.inj h
      rw [List.length_drop]
      omega
  unfold readTlv at h
  split at h
  · rename_i t firstLen bytes
    rw [List.length_cons, List.length_cons]
    split at h
    · have hle := hvalue h
      omega
    · dsimp only at h
      split at h
      · cases h
      · have hle := hvalue h
        rw [List.length_drop] at hle
        omega
  · cases h

theorem expect_eq_ok {tag : UInt8} {input content rest : List UInt8} :
    expect tag input = .ok (content, rest) ↔ readTlv input = some (tag, content, rest) := by
  unfold expect
  cases hread : readTlv input with
  | none => simp
  | some element =>
    obtain ⟨t, c, r⟩ := element
    by_cases ht : t = tag
    · simp [ht]
    · simp [ht]

theorem length_of_readExtension {cursor oid value rest : List UInt8}
    (h : readExtension cursor = .ok (oid, value, rest)) : rest.length < cursor.length := by
  unfold readExtension at h
  obtain ⟨⟨extContent, rest'⟩, hext, h⟩ := bind_eq_ok h
  obtain ⟨⟨extOid, afterOid⟩, hoid, h⟩ := bind_eq_ok h
  obtain ⟨⟨extnValue, after⟩, hvalue, h⟩ := bind_eq_ok h
  obtain ⟨-, h⟩ := Prod.mk.inj (Except.ok.inj h)
  obtain ⟨-, rfl⟩ := Prod.mk.inj h
  exact length_of_readTlv (expect_eq_ok.mp hext)

/-- An extension of the grammar is read, with its critical flag or without one. -/
theorem readExtension_of_isExtension {cursor content rest : List UInt8} {e : Extension}
    (hread : readTlv cursor = some (0x30, content, rest)) (he : IsExtension content e) :
    readExtension cursor = .ok (e.oid, e.value, rest) := by
  obtain ⟨afterOid, hoid, hvalue⟩ := he
  have hskip : readTlv (skip 0x01 afterOid) = some (0x04, e.value, []) := by
    unfold skip
    cases hcritical : e.critical with
    | none =>
      rw [hcritical] at hvalue
      dsimp only at hvalue
      rw [hvalue]
      exact hvalue
    | some critical =>
      rw [hcritical] at hvalue
      obtain ⟨afterCritical, hflag, hvalue⟩ := hvalue
      rw [hflag]
      exact hvalue
  unfold readExtension
  rw [expect_eq_ok.mpr hread]
  dsimp only [Bind.bind, Except.bind]
  rw [expect_eq_ok.mpr hoid]
  dsimp only
  rw [expect_eq_ok.mpr hskip]
  rfl

theorem isExtensions_nil {es : List Extension} (h : IsExtensions [] es) : es = [] := by
  cases h with
  | nil => rfl
  | cons hread _ _ => cases hread

/-! ### The scan -/

/-- The extensions before the nonce do not matter. -/
theorem scanExtensions_of_nonce {before after : List Extension} {e : Extension}
    (hbefore : ∀ e' ∈ before, e'.oid ≠ nonceOid) (he : e.oid = nonceOid) {cursor : List UInt8}
    (h : IsExtensions cursor (before ++ e :: after)) {fuel : ℕ} (hfuel : cursor.length ≤ fuel) :
    scanExtensions fuel cursor =
      if e.value.isEmpty ∨ 32 < e.value.length then .error .MalformedRequest
      else .ok (some e.value) := by
  induction before generalizing cursor fuel with
  | nil =>
    obtain _ | ⟨hread, hhead, htail⟩ := h
    have hlt := length_of_readTlv hread
    obtain ⟨fuel, rfl⟩ := Nat.exists_eq_add_one_of_ne_zero (by omega : fuel ≠ 0)
    have hne : cursor.isEmpty = false := by
      cases cursor with
      | nil => simp at hlt
      | cons _ _ => rfl
    rw [scanExtensions, hne, readExtension_of_isExtension hread hhead]
    dsimp only [Bind.bind, Except.bind]
    rw [if_pos he]
    rfl
  | cons first before ih =>
    obtain _ | ⟨hread, hhead, htail⟩ := h
    have hlt := length_of_readTlv hread
    obtain ⟨fuel, rfl⟩ := Nat.exists_eq_add_one_of_ne_zero (by omega : fuel ≠ 0)
    have hne : cursor.isEmpty = false := by
      cases cursor with
      | nil => simp at hlt
      | cons _ _ => rfl
    rw [scanExtensions, hne, readExtension_of_isExtension hread hhead]
    dsimp only [Bind.bind, Except.bind]
    rw [if_neg (hbefore first List.mem_cons_self)]
    exact ih (fun e' he' => hbefore e' (List.mem_cons_of_mem _ he')) htail (by omega)

theorem scanExtensions_error_iff {cursor : List UInt8} {fuel : ℕ} (hfuel : cursor.length ≤ fuel) :
    (∃ e, scanExtensions fuel cursor = .error e) ↔ RefusedList cursor := by
  induction fuel generalizing cursor with
  | zero =>
    have hnil : cursor = [] := List.length_eq_zero_iff.mp (by omega)
    subst hnil
    refine iff_of_false (by rintro ⟨e, h⟩; cases h) fun h => ?_
    have hread : readExtension [] = .error .MalformedRequest := rfl
    cases h with
    | unreadable hne _ => exact hne rfl
    | length h _ => cases hread.symm.trans h
    | later h _ _ => cases hread.symm.trans h
  | succ fuel ih =>
    cases hcursor : cursor with
    | nil =>
      refine iff_of_false (by rintro ⟨e, h⟩; cases h) fun h => ?_
      have hread : readExtension [] = .error .MalformedRequest := rfl
      cases h with
      | unreadable hne _ => exact hne rfl
      | length h _ => cases hread.symm.trans h
      | later h _ _ => cases hread.symm.trans h
    | cons b bytes =>
      rw [← hcursor]
      have hne : cursor.isEmpty = false := by rw [hcursor]; rfl
      rw [scanExtensions, hne]
      simp only [Bool.false_eq_true, if_false]
      cases hread : readExtension cursor with
      | error e =>
        refine iff_of_true ⟨e, rfl⟩ (.unreadable (by simp [hcursor]) fun e' he' => ?_)
        cases hread.symm.trans he'
      | ok ext =>
        obtain ⟨oid, value, rest⟩ := ext
        have hlt := length_of_readExtension hread
        have hinj {oid' value' rest' : List UInt8}
            (h : readExtension cursor = .ok (oid', value', rest')) :
            oid' = oid ∧ value' = value ∧ rest' = rest := by
          have heq := Except.ok.inj (hread.symm.trans h)
          simp only [Prod.mk.injEq] at heq
          exact ⟨heq.1.symm, heq.2.1.symm, heq.2.2.symm⟩
        dsimp only [Bind.bind, Except.bind]
        by_cases hoid : oid = nonceOid
        · rw [if_pos hoid]
          subst hoid
          by_cases hlen : value.isEmpty ∨ 32 < value.length
          · rw [if_pos hlen]
            exact iff_of_true ⟨_, rfl⟩ (.length hread (by simpa using hlen))
          · rw [if_neg hlen]
            refine iff_of_false (by rintro ⟨e, h⟩; cases h) fun h => ?_
            cases h with
            | unreadable _ hnone => exact hnone _ hread
            | length h hlen' =>
              obtain ⟨-, rfl, -⟩ := hinj h
              exact hlen (by simpa using hlen')
            | later h hoid _ => exact hoid (hinj h).1
        · rw [if_neg hoid, ih (by omega)]
          constructor
          · exact fun h => .later hread hoid h
          · intro h
            cases h with
            | unreadable _ hnone => exact absurd hread (hnone _)
            | length h _ => exact absurd (hinj h).1.symm hoid
            | later h _ hrest =>
              obtain ⟨-, -, rfl⟩ := hinj h
              exact hrest

theorem findNonceExtension_error_iff (extExplicit : List UInt8) :
    (∃ e, findNonceExtension extExplicit = .error e) ↔
      (∀ content rest, readTlv extExplicit ≠ some (0x30, content, rest)) ∨
        ∃ content rest, readTlv extExplicit = some (0x30, content, rest) ∧ RefusedList content := by
  unfold findNonceExtension
  cases hread : expect 0x30 extExplicit with
  | error e =>
    refine iff_of_true ⟨e, rfl⟩ (.inl fun content rest h => ?_)
    cases hread.symm.trans (expect_eq_ok.mpr h)
  | ok element =>
    obtain ⟨content, rest⟩ := element
    have hseq := expect_eq_ok.mp hread
    show (∃ e, scanExtensions content.length content = .error e) ↔ _
    rw [scanExtensions_error_iff (Nat.le_refl _)]
    constructor
    · exact fun h => .inr ⟨content, rest, hseq, h⟩
    · rintro (hnone | ⟨content', rest', hseq', h⟩)
      · exact absurd hseq (hnone _ _)
      · have heq := Option.some.inj (hseq.symm.trans hseq')
        simp only [Prod.mk.injEq, true_and] at heq
        rwa [heq.1]

/-! ### Requests -/

/-- The request up to the extensions, and the rest of the TBSRequest. -/
def fromDerHead (oidText : List UInt8 → Option String) (input : List UInt8) :
    Except Error (OcspRequest × List UInt8) := do
  let (ocspContent, _) ← expect 0x30 input
  let (tbsContent, _) ← expect 0x30 ocspContent
  let (requestList, afterList) ← expect 0x30 (skip 0xA1 (skip 0xA0 tbsContent))
  let (requestContent, _) ← expect 0x30 requestList
  let (certId, _) ← expect 0x30 requestContent
  let (algId, afterAlg) ← expect 0x30 certId
  let (oidBytes, _) ← expect 0x06 algId
  match oidText oidBytes with
  | none => .error .MalformedRequest
  | some oid =>
    let hashAlgorithm ← oidToHashAlgorithm oid
    let (issuerNameHash, afterName) ← expect 0x04 afterAlg
    let (issuerKeyHash, afterKey) ← expect 0x04 afterName
    let (serialNumber, _) ← expect 0x02 afterKey
    if serialNumber.isEmpty then .error .MalformedRequest
    else
      return ({ serialNumber, issuerNameHash, issuerKeyHash, hashAlgorithm, nonce := none },
        afterList)

/-- The extensions of a request. -/
def withExtensions (request : OcspRequest) (afterList : List UInt8) : Except Error OcspRequest :=
  match readTlv afterList with
  | some (0xA2, extExplicit, _) => do
    let nonce ← findNonceExtension extExplicit
    return { request with nonce }
  | _ => return request

theorem fromDer_eq (oidText : List UInt8 → Option String) (input : List UInt8) :
    fromDer oidText input =
      fromDerHead oidText input >>= fun parsed => withExtensions parsed.1 parsed.2 := by
  unfold fromDer fromDerHead
  rw [bind_assoc]
  refine bind_congr fun (ocspContent, _) => ?_
  rw [bind_assoc]
  refine bind_congr fun (tbsContent, _) => ?_
  rw [bind_assoc]
  refine bind_congr fun (requestList, afterList) => ?_
  rw [bind_assoc]
  refine bind_congr fun (requestContent, _) => ?_
  rw [bind_assoc]
  refine bind_congr fun (certId, _) => ?_
  rw [bind_assoc]
  refine bind_congr fun (algId, afterAlg) => ?_
  rw [bind_assoc]
  refine bind_congr fun (oidBytes, _) => ?_
  dsimp only
  cases oidText oidBytes with
  | none => rfl
  | some oid =>
    dsimp only
    rw [bind_assoc]
    refine bind_congr fun hashAlgorithm => ?_
    rw [bind_assoc]
    refine bind_congr fun (issuerNameHash, afterName) => ?_
    rw [bind_assoc]
    refine bind_congr fun (issuerKeyHash, afterKey) => ?_
    rw [bind_assoc]
    refine bind_congr fun (serialNumber, _) => ?_
    dsimp only
    by_cases hempty : serialNumber.isEmpty
    · rw [if_pos hempty, if_pos hempty]
      rfl
    · rw [if_neg hempty, if_neg hempty]
      rfl

/-- What the parser makes of the extensions, when it gets to them. -/
theorem fromDer_of_head {oidText : List UInt8 → Option String} {input afterList : List UInt8}
    {request : OcspRequest} (h : fromDerHead oidText input = .ok (request, afterList)) :
    fromDer oidText input = withExtensions request afterList := by
  rw [fromDer_eq, h]
  rfl

/-- An encoded OCTET STRING of up to 32 octets holds up to 30. -/
theorem length_octetString_le (nonce : List UInt8) :
    (octetString nonce).length ≤ 32 ↔ nonce.length ≤ 30 := by
  unfold octetString tlv derLength
  rw [List.length_cons, List.length_append]
  split
  · rw [List.length_singleton]
    omega
  · dsimp only
    rw [List.length_cons]
    omega

/-- **The nonce that is accepted.** -/
theorem fromDer_of_nonce {oidText : List UInt8 → Option String} {input afterList : List UInt8}
    {request : OcspRequest} (hhead : fromDerHead oidText input = .ok (request, afterList))
    {before after : List Extension} {critical : Option (List UInt8)} {nonce : List UInt8}
    (hfield : HasExtensions afterList
      (before ++ { oid := nonceOid, critical, value := octetString nonce } :: after))
    (hbefore : ∀ e ∈ before, e.oid ≠ nonceOid) :
    fromDer oidText input =
      if nonce.length ≤ 30 then .ok { request with nonce := some (octetString nonce) }
      else .error .MalformedRequest := by
  obtain ⟨extExplicit, content, hread, hseq, hexts⟩ := hfield
  have hscan := scanExtensions_of_nonce hbefore rfl hexts (Nat.le_refl content.length)
  have hempty : (octetString nonce).isEmpty = false := rfl
  have hlen := length_octetString_le nonce
  rw [fromDer_of_head hhead, withExtensions, hread]
  show (findNonceExtension extExplicit >>= _) = _
  rw [findNonceExtension, expect_eq_ok.mpr hseq]
  show (scanExtensions content.length content >>= _) = _
  rw [hscan]
  dsimp only
  rw [hempty]
  by_cases hshort : nonce.length ≤ 30
  · rw [if_pos hshort, if_neg (by simp; omega)]
    rfl
  · rw [if_neg hshort, if_pos (by right; omega)]
    rfl

/-- When a request is rejected for its extensions. -/
theorem fromDer_error_iff_refused {oidText : List UInt8 → Option String}
    {input afterList : List UInt8} {request : OcspRequest}
    (hhead : fromDerHead oidText input = .ok (request, afterList)) :
    (∃ e, fromDer oidText input = .error e) ↔ Refused afterList := by
  rw [fromDer_of_head hhead]
  unfold withExtensions Refused
  split
  · rename_i extExplicit after hread
    have hfind := findNonceExtension_error_iff extExplicit
    constructor
    · rintro ⟨e, he⟩
      refine ⟨extExplicit, after, hread, hfind.mp ?_⟩
      cases hresult : findNonceExtension extExplicit with
      | error e' => exact ⟨e', rfl⟩
      | ok nonce =>
        rw [hresult] at he
        cases he
    · rintro ⟨extExplicit', after', hread', hrefused⟩
      have heq := Option.some.inj (hread.symm.trans hread')
      simp only [Prod.mk.injEq, true_and] at heq
      rw [← heq.1] at hrefused
      obtain ⟨e, he⟩ := hfind.mpr hrefused
      rw [he]
      exact ⟨e, rfl⟩
  · rename_i hnone
    refine iff_of_false (by rintro ⟨e, h⟩; cases h) ?_
    rintro ⟨extExplicit, after, hread, -⟩
    exact hnone _ _ hread

/-- The rule for the nonce of `input`: a nonce of 1 to 32 octets is accepted and returned as it is
encoded, and extensions that are not well formed are rejected. -/
structure NonceRule (oidText : List UInt8 → Option String) (input : List UInt8) : Prop where
  nonce : ∀ request afterList, fromDerHead oidText input = .ok (request, afterList) →
    ∀ before critical nonce after,
      HasExtensions afterList
        (before ++ { oid := nonceOid, critical, value := octetString nonce } :: after) →
      (∀ e ∈ before, e.oid ≠ nonceOid) →
      ((∃ request', fromDer oidText input = .ok request') ↔
        1 ≤ nonce.length ∧ nonce.length ≤ 32) ∧
      ∀ request', fromDer oidText input = .ok request' →
        request' = { request with nonce := some (octetString nonce) }
  malformed : ∀ request afterList, fromDerHead oidText input = .ok (request, afterList) →
    afterList.head? = some 0xA2 → (∀ es, ¬ HasExtensions afterList es) →
    ∃ e, fromDer oidText input = .error e

/-- **Which nonces the parser treats by the rule.**  The length limit is applied to the encoded
OCTET STRING, and what stands after a nonce, or makes the whole field unreadable, is not looked at.
-/
theorem nonceRule_iff (oidText : List UInt8 → Option String) (input : List UInt8) :
    NonceRule oidText input ↔
      ∀ request afterList, fromDerHead oidText input = .ok (request, afterList) →
        (∀ before critical nonce after,
          HasExtensions afterList
            (before ++ { oid := nonceOid, critical, value := octetString nonce } :: after) →
          (∀ e ∈ before, e.oid ≠ nonceOid) →
          nonce.length ≠ 0 ∧ nonce.length ≠ 31 ∧ nonce.length ≠ 32) ∧
        (afterList.head? = some 0xA2 → (∃ es, HasExtensions afterList es) ∨ Refused afterList) := by
  constructor
  · intro h request afterList hhead
    constructor
    · intro before critical nonce after hfield hbefore
      have hrule := (h.nonce request afterList hhead before critical nonce after hfield hbefore).1
      rw [fromDer_of_nonce hhead hfield hbefore] at hrule
      by_cases hshort : nonce.length ≤ 30
      · rw [if_pos hshort] at hrule
        have hbounds := hrule.mp ⟨_, rfl⟩
        omega
      · rw [if_neg hshort] at hrule
        have hlong : ¬ (1 ≤ nonce.length ∧ nonce.length ≤ 32) := by
          intro hbounds
          obtain ⟨request', hok⟩ := hrule.mpr hbounds
          cases hok
        omega
    · intro hpresent
      by_cases hformed : ∃ es, HasExtensions afterList es
      · exact .inl hformed
      · right
        rw [← fromDer_error_iff_refused hhead]
        exact h.malformed request afterList hhead hpresent fun es hes => hformed ⟨es, hes⟩
  · intro h
    constructor
    · intro request afterList hhead before critical nonce after hfield hbefore
      have hlen := (h request afterList hhead).1 before critical nonce after hfield hbefore
      rw [fromDer_of_nonce hhead hfield hbefore]
      by_cases hshort : nonce.length ≤ 30
      · rw [if_pos hshort]
        exact ⟨iff_of_true ⟨_, rfl⟩ (by omega), fun request' h => (Except.ok.inj h).symm⟩
      · rw [if_neg hshort]
        exact ⟨iff_of_false (by rintro ⟨_, h⟩; cases h) (by omega), fun _ h => by cases h⟩
    · intro request afterList hhead hpresent hmalformed
      rw [fromDer_error_iff_refused hhead]
      rcases (h request afterList hhead).2 hpresent with ⟨es, hes⟩ | hrefused
      · exact absurd hes (hmalformed es)
      · exact hrefused

/-- The requestExtensions field of a request with one extension, the nonce. -/
def nonceField (nonce : List UInt8) : List UInt8 :=
  tlv 0xA2 (seq (seq (tlv 0x06 nonceOid ++ octetString (octetString nonce))))

/-- A request with SHA-1 hashes and a nonce. -/
def nonceRequest (nonce : List UInt8) : List UInt8 :=
  seq (seq (seq (seq (seq (seq (tlv 0x06 [0x2B, 0x0E, 0x03, 0x02, 0x1A] ++ null)
    ++ octetString [1] ++ octetString [2] ++ tlv 0x02 [3]))) ++ nonceField nonce))

/-- A nonce of 32 octets is rejected. -/
theorem nonceRule_thirty_two :
    ¬ NonceRule Instance.responder.oidText (nonceRequest (List.replicate 32 0xAB)) := by
  intro h
  have hhead : fromDerHead Instance.responder.oidText (nonceRequest (List.replicate 32 0xAB)) =
      .ok ({ serialNumber := [3], issuerNameHash := [1], issuerKeyHash := [2],
             hashAlgorithm := .Sha1, nonce := none }, nonceField (List.replicate 32 0xAB)) := by
    decide +kernel
  have hfield : HasExtensions (nonceField (List.replicate 32 0xAB))
      ([] ++ ⟨nonceOid, none, octetString (List.replicate 32 0xAB)⟩ :: []) := by
    let body := tlv 0x06 nonceOid ++ octetString (octetString (List.replicate 32 0xAB))
    have hread : readTlv (seq body) = some (0x30, body, []) := by decide +kernel
    have hext : IsExtension body ⟨nonceOid, none, octetString (List.replicate 32 0xAB)⟩ :=
      ⟨octetString (octetString (List.replicate 32 0xAB)), by decide +kernel, by decide +kernel⟩
    exact ⟨seq (seq body), seq body, by decide +kernel, by decide +kernel, .cons hread hext .nil⟩
  have hrule := (h.nonce _ _ hhead [] none _ [] hfield (fun _ he => absurd he List.not_mem_nil)).1
  obtain ⟨request', hok⟩ := hrule.mpr (by decide)
  rw [fromDer_of_nonce hhead hfield fun _ he => absurd he List.not_mem_nil,
    if_neg (by decide)] at hok
  cases hok

end Ostrich.Ocsp
