import Ostrich.Kra.Equiv.GF256

/-!
# The extended Euclidean inverse

`gfMulU16` is the product of polynomials while the product fits 16 bits (`gfMulU16_spec`) and
`gfDivU16` the quotient of the polynomial division (`gfDivU16_spec`).  The loop of `gfInv` keeps
`InvLoop`: `t · a = r` and `newt · a = newr` modulo the reduction polynomial, `r` and `newr` are
coprime, and `deg newt + deg r = 8`, which bounds every product below 16 bits.  The degree of
`newr` drops in every round, so the loop ends; there `r = 1` and `t` is the inverse
(`gfInv_spec`).
-/

namespace Ostrich.Kra

open Polynomial BinaryPoly

/-- The polynomial of a `u16`. -/
noncomputable def poly16 (x : UInt16) : (ZMod 2)[X] := toPoly x.toBitVec

theorem poly16_xor (x y : UInt16) : poly16 (x ^^^ y) = poly16 x + poly16 y := toPoly_xor _ _

theorem poly16_zero : poly16 0 = 0 := toPoly_zero

theorem poly16_one : poly16 1 = 1 := by
  rw [poly16, toPoly_eq_bit_add]
  rw [show (1 : UInt16).toBitVec >>> 1 = 0 from rfl, toPoly_zero]
  simp [bit]

theorem poly16_eq_zero_iff (x : UInt16) : poly16 x = 0 ↔ x = 0 := by
  rw [← poly16_zero]
  constructor
  · intro h
    exact UInt16.toBitVec_inj.mp (toPoly_injective h)
  · intro h
    rw [h]

theorem bits16_le_iff (x : UInt16) (k : ℕ) : bits16 x ≤ k ↔ (poly16 x).degree < k := by
  rw [poly16, degree_toPoly_lt_iff, bits16, UInt16.toNat_toBitVec]
  split_ifs with h
  · simp [h]
  · have h0 : x.toNat ≠ 0 := fun h' => h (UInt16.toNat_inj.mp h')
    rw [Nat.succ_le_iff, Nat.log2_lt h0]

theorem bits16_le (x : UInt16) : bits16 x ≤ 16 := by
  rw [bits16_le_iff]
  exact degree_toPoly_lt _

theorem bits16_pos {x : UInt16} (h : x ≠ 0) : 0 < bits16 x := by
  rw [bits16, if_neg h]
  omega

theorem poly16_ne_zero {x : UInt16} (h : x ≠ 0) : poly16 x ≠ 0 := mt (poly16_eq_zero_iff x).mp h

theorem natDegree_poly16 {x : UInt16} (h : x ≠ 0) : (poly16 x).natDegree + 1 = bits16 x := by
  have key : ∀ k : ℕ, (poly16 x).natDegree < k ↔ bits16 x ≤ k := by
    intro k
    rw [bits16_le_iff, natDegree_lt_iff_degree_lt (poly16_ne_zero h)]
  have h1 := (key (bits16 x)).mpr le_rfl
  have h2 := mt (key (bits16 x - 1)).mp (by have := bits16_pos h; omega)
  omega

/-! ### `gfMulU16` -/

theorem poly16_eq_bit_add (b : UInt16) :
    poly16 b = C (bit (b.toBitVec.getLsbD 0)) + X * poly16 (b >>> 1) :=
  toPoly_eq_bit_add b.toBitVec

theorem poly16_shiftLeft {x : UInt16} {n : ℕ} (hn : n < 16) (h : bits16 x + n ≤ 16) :
    poly16 (x <<< UInt16.ofNat n) = X ^ n * poly16 x := by
  have hshift : (x <<< UInt16.ofNat n).toBitVec = x.toBitVec <<< n := by
    rw [UInt16.toBitVec_shiftLeft]
    interval_cases n <;> rfl
  rw [poly16, hshift]
  refine toPoly_shiftLeft x.toBitVec n ?_
  have hx : x.toBitVec.toNat < 2 ^ bits16 x := by
    rw [← degree_toPoly_lt_iff]
    exact (bits16_le_iff x _).mp le_rfl
  calc x.toBitVec.toNat * 2 ^ n < 2 ^ bits16 x * 2 ^ n :=
        Nat.mul_lt_mul_of_pos_right hx (Nat.two_pow_pos n)
    _ = 2 ^ (bits16 x + n) := (pow_add _ _ _).symm
    _ ≤ 2 ^ 16 := Nat.pow_le_pow_right (by omega) h

theorem bits16_shiftRight_lt {b : UInt16} (h : b ≠ 0) : bits16 (b >>> 1) < bits16 b := by
  by_cases h' : b >>> 1 = 0
  · rw [h']
    exact bits16_pos h
  · have hX : (poly16 b).natDegree = (poly16 (b >>> 1)).natDegree + 1 := by
      have hne := poly16_ne_zero h'
      rw [poly16_eq_bit_add, natDegree_C_add, natDegree_X_mul hne]
    have h1 := natDegree_poly16 h
    have h2 := natDegree_poly16 h'
    omega

theorem and_one_ne_zero_iff16 (b : UInt16) : b &&& 1 ≠ 0 ↔ b.toBitVec.getLsbD 0 = true := by
  rw [Ne, ← UInt16.toNat_inj, UInt16.toNat_and, BitVec.getLsbD, UInt16.toNat_toBitVec,
    Nat.testBit_zero]
  simp [Nat.and_one_is_mod]

/-- The invariant of the loop of `gfMulU16`: `result` misses `a · b`, which fits 16 bits. -/
structure MulLoop (product : (ZMod 2)[X]) (s : MulState) : Prop where
  sum : poly16 s.result + poly16 s.a * poly16 s.b = product
  fits : s.b ≠ 0 → s.a ≠ 0 → (poly16 s.a).natDegree + (poly16 s.b).natDegree < 16

theorem MulLoop.step {product : (ZMod 2)[X]} {s : MulState} (h : MulLoop product s) (hb : s.b ≠ 0) :
    MulLoop product
      ⟨if s.b &&& 1 ≠ 0 then s.result ^^^ s.a else s.result, s.a <<< 1, s.b >>> 1⟩ := by
  have hresult : poly16 (if s.b &&& 1 ≠ 0 then s.result ^^^ s.a else s.result)
      = poly16 s.result + poly16 s.a * C (bit (s.b.toBitVec.getLsbD 0)) := by
    by_cases h0 : s.b.toBitVec.getLsbD 0 = true
    · rw [if_pos ((and_one_ne_zero_iff16 s.b).mpr h0), poly16_xor, h0]
      simp [bit]
    · rw [if_neg (mt (and_one_ne_zero_iff16 s.b).mp h0),
        show s.b.toBitVec.getLsbD 0 = false by simpa using h0]
      simp [bit]
  -- unless it was the last round, `a` has room for one more bit
  have hshift : s.b >>> 1 ≠ 0 → poly16 (s.a <<< 1) = X * poly16 s.a := by
    intro hb'
    by_cases ha : s.a = 0
    · rw [ha, poly16_zero, mul_zero]
      exact poly16_zero
    · have h1 := h.fits hb ha
      have h2 := natDegree_poly16 ha
      have h3 := natDegree_poly16 hb
      have h4 := bits16_shiftRight_lt hb
      have h5 := bits16_pos hb'
      have := poly16_shiftLeft (x := s.a) (n := 1) (by omega) (by omega)
      rwa [pow_one] at this
  refine ⟨?_, ?_⟩
  · dsimp only
    rw [hresult, ← h.sum, poly16_eq_bit_add s.b]
    by_cases hb' : s.b >>> 1 = 0
    · rw [hb', poly16_zero]
      ring
    · rw [hshift hb']
      ring
  · dsimp only
    intro hb' ha'
    have ha : s.a ≠ 0 := by
      rintro ha
      rw [ha] at ha'
      exact ha' rfl
    have h1 := h.fits hb ha
    have h2 := natDegree_poly16 hb
    have h3 := natDegree_poly16 hb'
    have h4 := bits16_shiftRight_lt hb
    rw [hshift hb', natDegree_X_mul (poly16_ne_zero ha)]
    omega

/-- **`gfMulU16` multiplies polynomials** whose product fits 16 bits. -/
theorem gfMulU16_spec (a b : UInt16)
    (h : b ≠ 0 → a ≠ 0 → (poly16 a).natDegree + (poly16 b).natDegree < 16) :
    ∃ c, gfMulU16 a b = .ok c ∧ poly16 c = poly16 a * poly16 b := by
  have hinit : MulLoop (poly16 a * poly16 b) ⟨0, a, b⟩ :=
    ⟨by rw [poly16_zero, zero_add], h⟩
  obtain ⟨r, hr, hinv, hcond⟩ :=
    Outcome.whileLoop_total (ε := Error) (MulLoop (poly16 a * poly16 b))
    (fun s => bits16 s.b) (c := fun s => s.b ≠ 0)
    (fun s hc hP => ⟨_, rfl, hP.step (by simpa using hc), bits16_shiftRight_lt (by simpa using hc)⟩)
    16 ⟨0, a, b⟩ (bits16_le b) hinit
  have hb : r.b = 0 := by simpa using hcond
  refine ⟨r.result, by rw [gfMulU16, hr]; rfl, ?_⟩
  rw [← hinv.sum, hb, poly16_zero, mul_zero, add_zero]

/-! ### `gfDivU16` -/

/-- The loop of `gfDivU16` keeps `a = quotient · b + remainder`, and every round shortens the
remainder, so the rounds are enough to make it shorter than `b`. -/
theorem gfDivU16_go_spec {b : UInt16} (hb : b ≠ 0) (a : (ZMod 2)[X]) :
    ∀ (rounds : ℕ) (quotient remainder : UInt16), bits16 remainder < rounds + bits16 b →
      a = poly16 quotient * poly16 b + poly16 remainder →
      ∃ rest : (ZMod 2)[X],
        a = poly16 (gfDivU16.go b (bits16 b) rounds quotient remainder) * poly16 b + rest ∧
        rest.degree < (poly16 b).degree := by
  have hshort : ∀ x : UInt16, bits16 x < bits16 b → (poly16 x).degree < (poly16 b).degree := by
    intro x hx
    rw [degree_eq_natDegree (poly16_ne_zero hb)]
    apply (bits16_le_iff x _).mp
    have := natDegree_poly16 hb
    omega
  intro rounds
  induction rounds with
  | zero =>
    intro quotient remainder hlen ha
    exact ⟨poly16 remainder, ha, hshort _ (by omega)⟩
  | succ rounds ih =>
    intro quotient remainder hlen ha
    rw [gfDivU16.go]
    dsimp only
    split_ifs with hlt
    · exact ⟨poly16 remainder, ha, hshort _ hlt⟩
    · have hrem : remainder ≠ 0 := by
        rintro rfl
        exact hlt (bits16_pos hb)
      have hle := bits16_le remainder
      have hbpos := bits16_pos hb
      set shift := bits16 remainder - bits16 b with hs
      have hq : poly16 ((1 : UInt16) <<< UInt16.ofNat shift) = X ^ shift := by
        rw [poly16_shiftLeft (by omega) (by rw [show bits16 1 = 1 from rfl]; omega), poly16_one,
          mul_one]
      have hr : poly16 (b <<< UInt16.ofNat shift) = X ^ shift * poly16 b :=
        poly16_shiftLeft (by omega) (by omega)
      apply ih
      · -- the leading terms cancel
        have hne : X ^ shift * poly16 b ≠ 0 :=
          mul_ne_zero (pow_ne_zero _ X_ne_zero) (poly16_ne_zero hb)
        have hdeg : (poly16 remainder).degree = (X ^ shift * poly16 b).degree := by
          rw [degree_eq_natDegree (poly16_ne_zero hrem), degree_eq_natDegree hne,
            natDegree_X_pow_mul _ (poly16_ne_zero hb)]
          have h1 := natDegree_poly16 hrem
          have h2 := natDegree_poly16 hb
          congr 1
          omega
        have hlt' := degree_add_lt_of_degree_eq (poly16_ne_zero hrem) hdeg
        rw [← hr, ← poly16_xor, degree_eq_natDegree (poly16_ne_zero hrem), ← bits16_le_iff] at hlt'
        have h1 := natDegree_poly16 hrem
        omega
      · rw [poly16_xor, poly16_xor, hq, hr, ha]
        linear_combination -(CharTwo.add_self_eq_zero (X ^ shift * poly16 b))

/-- **`gfDivU16` is the quotient of the division with remainder.** -/
theorem gfDivU16_spec (a b : UInt16) (hb : b ≠ 0) :
    ∃ rest : (ZMod 2)[X], poly16 a = poly16 (gfDivU16 a b) * poly16 b + rest ∧
      rest.degree < (poly16 b).degree := by
  rw [gfDivU16, if_neg hb]
  refine gfDivU16_go_spec hb (poly16 a) _ 0 a ?_ (by rw [poly16_zero, zero_mul, zero_add])
  have h1 := bits16_le a
  have h2 := bits16_le b
  omega

/-! ### The loop of `gfInv` -/

/-- The invariant of the loop of `gfInv` for the inverse of `a`. -/
structure InvLoop (a : (ZMod 2)[X]) (s : InvState) : Prop where
  left : reductionPoly ∣ poly16 s.t * a + poly16 s.r
  right : reductionPoly ∣ poly16 s.newt * a + poly16 s.newr
  coprime : IsCoprime (poly16 s.r) (poly16 s.newr)
  shrink : (poly16 s.newr).degree < (poly16 s.r).degree
  grow : (poly16 s.t).degree < (poly16 s.newt).degree
  total : (poly16 s.newt).natDegree + (poly16 s.r).natDegree = 8

/-- One round divides `r` by `newr`: it does not run out of bits, keeps the invariant and lowers
the degree of `newr`. -/
theorem InvLoop.step {a : (ZMod 2)[X]} {s : InvState} (h : InvLoop a s) (hnewr : s.newr ≠ 0) :
    ∃ s', gfInv.body s = .ok s' ∧ InvLoop a s' ∧ bits16 s'.newr < bits16 s.newr := by
  obtain ⟨rest, hdiv, hrest⟩ := gfDivU16_spec s.r s.newr hnewr
  set quotient := gfDivU16 s.r s.newr with hquot
  have hnewr0 := poly16_ne_zero hnewr
  have hr0 : poly16 s.r ≠ 0 := ne_zero_of_degree_gt h.shrink
  have hnewt0 : poly16 s.newt ≠ 0 := ne_zero_of_degree_gt h.grow
  -- the product of the quotient and `newr` has the degree of `r`
  have hprod : poly16 quotient * poly16 s.newr = poly16 s.r + rest := by
    rw [hdiv, add_assoc, CharTwo.add_self_eq_zero, add_zero]
  have hproddeg : (poly16 quotient * poly16 s.newr).degree = (poly16 s.r).degree := by
    rw [hprod, degree_add_eq_left_of_degree_lt (hrest.trans h.shrink)]
  have hquot0 : poly16 quotient ≠ 0 := by
    intro hz
    rw [hz, zero_mul, degree_zero] at hproddeg
    exact hr0 (degree_eq_bot.mp hproddeg.symm)
  have hnat : (poly16 quotient).natDegree + (poly16 s.newr).natDegree = (poly16 s.r).natDegree := by
    rw [← natDegree_mul hquot0 hnewr0]
    exact natDegree_eq_of_degree_eq hproddeg
  have hlt : (poly16 s.newr).natDegree < (poly16 s.r).natDegree :=
    natDegree_lt_natDegree hnewr0 h.shrink
  have htotal := h.total
  obtain ⟨mt, hmt, hmtpoly⟩ := gfMulU16_spec quotient s.newt (fun _ _ => by omega)
  obtain ⟨mr, hmr, hmrpoly⟩ := gfMulU16_spec quotient s.newr (fun _ _ => by omega)
  have hbody : gfInv.body s = .ok ⟨s.newt, s.t ^^^ mt, s.newr, s.r ^^^ mr⟩ := by
    rw [gfInv.body, ← hquot, hmt, hmr]
    rfl
  have hnewr' : poly16 (s.r ^^^ mr) = rest := by
    rw [poly16_xor, hmrpoly, hprod, ← add_assoc, CharTwo.add_self_eq_zero, zero_add]
  have hnewt' : poly16 (s.t ^^^ mt) = poly16 s.t + poly16 quotient * poly16 s.newt := by
    rw [poly16_xor, hmtpoly]
  have hgrow : (poly16 s.t).degree < (poly16 quotient * poly16 s.newt).degree := by
    rw [mul_comm]
    exact lt_of_lt_of_le h.grow (degree_le_mul_left _ hquot0)
  refine ⟨_, hbody, ⟨h.right, ?_, ?_, ?_, ?_, ?_⟩, ?_⟩
  · -- `(t + q newt) a + (r + q newr)` is the sum of two multiples
    dsimp only
    rw [hnewt', poly16_xor, hmrpoly]
    have hsum := dvd_add h.left (h.right.mul_left (poly16 quotient))
    rw [show (poly16 s.t + poly16 quotient * poly16 s.newt) * a
        + (poly16 s.r + poly16 quotient * poly16 s.newr)
      = poly16 s.t * a + poly16 s.r + poly16 quotient * (poly16 s.newt * a + poly16 s.newr) by ring]
    exact hsum
  · dsimp only
    rw [hnewr']
    have hc := h.coprime
    rw [hdiv, add_comm, mul_comm] at hc
    exact (IsCoprime.of_add_mul_left_left hc).symm
  · dsimp only
    rw [hnewr']
    exact hrest
  · dsimp only
    rw [hnewt', degree_add_eq_right_of_degree_lt hgrow, degree_mul,
      degree_eq_natDegree hquot0, degree_eq_natDegree hnewt0, ← Nat.cast_add, Nat.cast_lt]
    omega
  · dsimp only
    rw [hnewt', natDegree_add_eq_right_of_degree_lt hgrow, natDegree_mul hquot0 hnewt0]
    omega
  · dsimp only
    have hb := natDegree_poly16 hnewr
    have hle := (bits16_le_iff (s.r ^^^ mr) (poly16 s.newr).natDegree).mpr
      (by rw [hnewr', ← degree_eq_natDegree hnewr0]; exact hrest)
    omega

/-- A nonzero byte is coprime to the reduction polynomial. -/
theorem isCoprime_reductionPoly {a : UInt8} (ha : a ≠ 0) :
    IsCoprime reductionPoly (toPoly a.toBitVec) := by
  obtain ⟨b, hb⟩ := (GF256.isUnit_of_ne_zero ⟨a⟩ (fun h =>
    ha (congrArg GF256.byte h))).exists_right_inv
  have hval : GF256.val ⟨a⟩ * GF256.val b = 1 := by rw [← GF256.val_mul, hb, GF256.val_one]
  have hmk : AdjoinRoot.mk reductionPoly (toPoly a.toBitVec * toPoly b.byte.toBitVec)
      = AdjoinRoot.mk reductionPoly 1 := by
    rw [map_mul, map_one]
    exact hval
  obtain ⟨c, hc⟩ := AdjoinRoot.mk_eq_mk.mp hmk
  exact ⟨-c, toPoly b.byte.toBitVec, by linear_combination hc⟩

theorem poly16_toUInt16 (a : UInt8) : poly16 a.toUInt16 = toPoly a.toBitVec := by
  ext i
  rw [poly16, coeff_toPoly, coeff_toPoly]
  rfl

theorem poly16_modulus : poly16 0x11B = reductionPoly := by
  rw [reductionPoly_eq]
  ext i
  rw [poly16, coeff_toPoly, coeff_add, coeff_toPoly, coeff_X_pow]
  by_cases hi : i < 16
  · interval_cases i <;> rfl
  · rw [BitVec.getLsbD_of_ge _ i (by omega), BitVec.getLsbD_of_ge _ i (by omega)]
    simp [bit, show i ≠ 8 by omega]

/-- The invariant holds before the first round. -/
theorem InvLoop.init {a : UInt8} (ha : a ≠ 0) :
    InvLoop (toPoly a.toBitVec) ⟨0, 1, 0x11B, a.toUInt16⟩ := by
  refine ⟨?_, ?_, ?_, ?_, ?_, ?_⟩ <;> dsimp only
  · rw [poly16_zero, zero_mul, zero_add, poly16_modulus]
  · rw [poly16_one, one_mul, poly16_toUInt16, CharTwo.add_self_eq_zero]
    exact dvd_zero _
  · rw [poly16_modulus, poly16_toUInt16]
    exact isCoprime_reductionPoly ha
  · rw [poly16_modulus, poly16_toUInt16, reductionPoly_degree]
    exact degree_toPoly_lt _
  · rw [poly16_zero, poly16_one, degree_zero, degree_one]
    exact WithBot.bot_lt_coe 0
  · rw [poly16_one, poly16_modulus, natDegree_one, zero_add]
    exact natDegree_eq_of_degree_eq_some reductionPoly_degree

/-- When the loop ends, `t` is a byte and the inverse of `a`. -/
theorem InvLoop.final {a : UInt8} {s : InvState} (h : InvLoop (toPoly a.toBitVec) s)
    (hnewr : s.newr = 0) : toField a * toField (s.t &&& 0xFF).toUInt8 = 1 := by
  have hunit : IsUnit (poly16 s.r) := by
    have hc := h.coprime
    rwa [hnewr, poly16_zero, isCoprime_zero_right] at hc
  have hdeg : (poly16 s.r).natDegree = 0 := natDegree_eq_zero_of_isUnit hunit
  have hone : poly16 s.r = 1 := by
    have hunits : ∀ c : ZMod 2, c ≠ 0 → c = 1 := by decide
    rw [eq_C_of_natDegree_eq_zero hdeg] at hunit ⊢
    rw [hunits _ (isUnit_C.mp hunit).ne_zero, C_1]
  -- `deg newt = 8`, so `t` is shorter than nine bits
  have hnewt0 : poly16 s.newt ≠ 0 := ne_zero_of_degree_gt h.grow
  have ht : (poly16 s.t).degree < (8 : ℕ) := by
    have htotal := h.total
    rw [hdeg, add_zero] at htotal
    have hgrow := h.grow
    rwa [degree_eq_natDegree hnewt0, htotal] at hgrow
  have htnat : s.t.toNat < 2 ^ 8 := by
    rw [← UInt16.toNat_toBitVec, ← degree_toPoly_lt_iff]
    exact ht
  have hbyte : toPoly (s.t &&& 0xFF).toUInt8.toBitVec = poly16 s.t := by
    rw [← poly16_toUInt16]
    congr 1
    apply UInt16.toNat_inj.mp
    rw [UInt8.toNat_toUInt16, UInt16.toNat_toUInt8, UInt16.toNat_and,
      show (0xFF : UInt16).toNat = 2 ^ 8 - 1 from rfl, Nat.and_two_pow_sub_one_eq_mod]
    omega
  have hmk : AdjoinRoot.mk reductionPoly (poly16 s.t * toPoly a.toBitVec + poly16 s.r) = 0 :=
    AdjoinRoot.mk_eq_zero.mpr h.left
  rw [hone, map_add, map_mul, map_one] at hmk
  rw [toField, toField, toQuot, toQuot, hbyte, mul_comm]
  have hneg := eq_neg_of_add_eq_zero_left hmk
  rw [hneg, ← map_one (AdjoinRoot.mk reductionPoly), ← map_neg, CharTwo.neg_eq]

/-- **The inverse loop ends and gives the inverse of a nonzero byte.** -/
theorem gfInv_spec {a : UInt8} (ha : a ≠ 0) : ∃ b, gfInv a = .ok b ∧ toField a * toField b = 1 := by
  have hbits : bits16 a.toUInt16 ≤ 9 := by
    rw [bits16_le_iff, poly16_toUInt16, degree_toPoly_lt_iff]
    have := a.toNat_lt
    rw [UInt8.toNat_toBitVec]
    omega
  obtain ⟨s, hs, hinv, hcond⟩ := Outcome.whileLoop_total (InvLoop (toPoly a.toBitVec))
    (fun s => bits16 s.newr) (c := fun s => s.newr ≠ 0)
    (fun s hc hP => hP.step (by simpa using hc)) 9 ⟨0, 1, 0x11B, a.toUInt16⟩ hbits (.init ha)
  refine ⟨(s.t &&& 0xFF).toUInt8, ?_, hinv.final (by simpa using hcond)⟩
  rw [gfInv, if_neg ha, hs]
  rfl

/-! ### The field -/

namespace GF256

instance : Inv GF256 := ⟨fun a => ⟨(gfInv a.byte).getD 0⟩⟩

theorem gfInv_eq (a : GF256) : gfInv a.byte = .ok a⁻¹.byte := by
  by_cases ha : a.byte = 0
  · rw [show a = 0 from GF256.ext ha]
    rfl
  · obtain ⟨b, hb, _⟩ := gfInv_spec ha
    rw [hb]
    change _ = Outcome.ok ((gfInv a.byte).getD 0)
    rw [hb]
    rfl

instance : Field GF256 where
  mul_inv_cancel a ha := by
    obtain ⟨b, hb, hmul⟩ := gfInv_spec (fun h => ha (GF256.ext h))
    have hinv : (a⁻¹).byte = b := by
      have := gfInv_eq a
      rw [hb] at this
      exact (Outcome.ok.inj this).symm
    apply val_injective
    rw [val_mul, val_one, val, val, hinv]
    exact hmul
  inv_zero := rfl
  nnqsmul := _
  nnqsmul_def _ _ := rfl
  qsmul := _
  qsmul_def _ _ := rfl

end GF256

/-- **`gfDiv` is the division of the field**, and panics exactly on a zero divisor. -/
theorem gfDiv_eq (a b : GF256) :
    gfDiv a.byte b.byte = if b = 0 then .panic else .ok (a / b).byte := by
  rw [gfDiv]
  by_cases hb : b = 0
  · have hb' : b.byte = 0 := congrArg GF256.byte hb
    rw [if_pos hb, if_pos hb']
  · have hb' : b.byte ≠ 0 := fun h => hb (GF256.ext h)
    rw [if_neg hb, if_neg hb', GF256.gfInv_eq, div_eq_mul_inv]
    rfl

theorem gfDiv_spec (a : UInt8) {b : UInt8} (hb : b ≠ 0) :
    ∃ q, gfDiv a b = .ok q ∧ toField q * toField b = toField a := by
  have hb' : (⟨b⟩ : GF256) ≠ 0 := fun h => hb (congrArg GF256.byte h)
  refine ⟨_, (gfDiv_eq ⟨a⟩ ⟨b⟩).trans (if_neg hb'), ?_⟩
  have h : (⟨a⟩ / ⟨b⟩ : GF256) * ⟨b⟩ = ⟨a⟩ := div_mul_cancel₀ _ hb'
  have hval := congrArg GF256.val h
  rwa [GF256.val_mul] at hval

end Ostrich.Kra
