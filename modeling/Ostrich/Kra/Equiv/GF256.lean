import Ostrich.Kra.Shamir
import Ostrich.Lib.BinaryPoly

/-!
# `gfAdd` and `gfMul` are the arithmetic of `GF(2)[x] / (x^8 + x^4 + x^3 + x + 1)`

`toField` sends a byte to the class of the polynomial of its bits.  It is injective
(`toField_injective`) and turns `gfAdd` and `gfMul` into the addition and the multiplication of
the quotient ring (`toField_gfAdd`, `toField_gfMul`); the invariant of the multiplication loop is
`toField_gfMul_go`.  So the bytes with these operations are a commutative ring, `GF256`.

Every nonzero byte is a power of `0x03` (`exists_pow_three_eq`), hence a unit (`isUnit_of_ne_zero`).
-/

namespace Ostrich.Kra

open Polynomial BinaryPoly

/-- The reduction polynomial of the program. -/
noncomputable def reductionPoly : (ZMod 2)[X] := X ^ 8 + X ^ 4 + X ^ 3 + X + 1

theorem reductionPoly_eq : reductionPoly = X ^ 8 + toPoly (0x1B#8) := by
  ext i
  rw [reductionPoly, coeff_add (X ^ 8) (toPoly _), coeff_toPoly]
  by_cases hi : i < 8
  · interval_cases i <;> simp [coeff_X, coeff_one, coeff_X_pow, bit]
  · rw [BitVec.getLsbD_of_ge _ i (by omega)]
    simp [coeff_X, coeff_one, coeff_X_pow, bit, show i ≠ 4 by omega, show i ≠ 3 by omega,
      show 1 ≠ i by omega, show i ≠ 0 by omega]

theorem reductionPoly_degree : reductionPoly.degree = 8 := by
  have h : (toPoly (0x1B#8)).degree < (X ^ 8 : (ZMod 2)[X]).degree := by
    rw [degree_X_pow]
    exact degree_toPoly_lt _
  rw [reductionPoly_eq, degree_add_eq_left_of_degree_lt h, degree_X_pow]
  rfl

/-- The element of the field that a byte stands for. -/
noncomputable def toField (a : UInt8) : AdjoinRoot reductionPoly := toQuot reductionPoly a.toBitVec

theorem toField_injective : Function.Injective toField := by
  intro a b h
  have hd : ((8 : ℕ) : WithBot ℕ) ≤ reductionPoly.degree := by rw [reductionPoly_degree]; rfl
  exact UInt8.toBitVec_inj.mp (toQuot_injective reductionPoly hd h)

theorem reductionPoly_monic : reductionPoly.Monic := by
  have h : (toPoly (0x1B#8)).degree < (8 : ℕ) := degree_toPoly_lt _
  rw [reductionPoly_eq]
  exact monic_X_pow_add h

/-- **The bytes are the whole quotient ring.** -/
theorem toField_bijective : Function.Bijective toField := by
  refine ⟨toField_injective, fun y => ?_⟩
  obtain ⟨x, hx⟩ := toQuot_surjective reductionPoly reductionPoly_monic reductionPoly_degree.le y
  exact ⟨⟨x⟩, hx⟩

theorem toField_zero : toField 0 = 0 := toQuot_zero reductionPoly

theorem toField_one : toField 1 = 1 := by
  have h : toPoly (1#8) = 1 := by
    ext i
    rw [coeff_toPoly, coeff_one]
    cases i <;> simp [bit]
  exact (congrArg (AdjoinRoot.mk reductionPoly) h).trans (map_one _)

theorem toField_xor (a b : UInt8) : toField (a ^^^ b) = toField a + toField b :=
  toQuot_xor reductionPoly a.toBitVec b.toBitVec

theorem toField_gfAdd (a b : UInt8) : toField (gfAdd a b) = toField a + toField b :=
  toField_xor a b

/-! ### The multiplication loop -/

/-- The doubling of a round: shift left, and reduce when a bit was shifted out. -/
def xtime (a : UInt8) : UInt8 := if a &&& 0x80 ≠ 0 then a <<< 1 ^^^ 0x1B else a <<< 1

theorem and_high_ne_zero_iff (a : UInt8) : a &&& 0x80 ≠ 0 ↔ a.toBitVec.getLsbD 7 = true := by
  have h : ∀ x : BitVec 8, x &&& 0x80#8 ≠ 0 ↔ x.getLsbD 7 = true := by decide
  rw [← h a.toBitVec, Ne, Ne, ← UInt8.toBitVec_inj]
  rfl

theorem and_one_ne_zero_iff (a : UInt8) : a &&& 1 ≠ 0 ↔ a.toBitVec.getLsbD 0 = true := by
  have h : ∀ x : BitVec 8, x &&& 1#8 ≠ 0 ↔ x.getLsbD 0 = true := by decide
  rw [← h a.toBitVec, Ne, Ne, ← UInt8.toBitVec_inj]
  rfl

/-- `X^8` is the low part of the reduction polynomial. -/
theorem mk_X_pow_eight :
    AdjoinRoot.mk reductionPoly (X ^ 8) = AdjoinRoot.mk reductionPoly (toPoly (0x1B#8)) := by
  rw [AdjoinRoot.mk_eq_mk, CharTwo.sub_eq_add, ← reductionPoly_eq]

theorem toField_xtime (a : UInt8) :
    toField (xtime a) = AdjoinRoot.mk reductionPoly X * toField a := by
  have hX := congrArg (AdjoinRoot.mk reductionPoly) (X_mul_toPoly a.toBitVec)
  rw [map_mul, map_add, map_mul, mk_X_pow_eight] at hX
  rw [toField, toField, toQuot, toQuot, hX, xtime]
  by_cases h : a.toBitVec.getLsbD 7 = true
  · rw [if_pos ((and_high_ne_zero_iff a).mpr h), h]
    rw [show (a <<< 1 ^^^ 0x1B).toBitVec = a.toBitVec <<< 1 ^^^ 0x1B#8 from rfl, toPoly_xor]
    simp [bit]
  · rw [if_neg (mt (and_high_ne_zero_iff a).mp h),
      show a.toBitVec.getLsbD 7 = false by simpa using h]
    rw [show (a <<< 1).toBitVec = a.toBitVec <<< 1 from rfl]
    simp [bit]

/-- The loop invariant of `gfMul`: with `k` rounds left, `result` still misses `a` times the low
`k` bits of `b`. -/
theorem toField_gfMul_go : ∀ (k : ℕ) (result a b : UInt8),
    toField (gfMul.go k result a b)
      = toField result + toField a * AdjoinRoot.mk reductionPoly (polyPrefix k b.toBitVec) := by
  intro k
  induction k with
  | zero =>
    intro result a b
    simp [gfMul.go, polyPrefix]
  | succ k ih =>
    intro result a b
    rw [gfMul.go]
    change toField (gfMul.go k _ (xtime a) _) = _
    rw [ih, toField_xtime, polyPrefix_succ, map_add, map_mul,
      show (b >>> 1).toBitVec = b.toBitVec >>> 1 from rfl]
    have hresult : toField (if b &&& 1 ≠ 0 then result ^^^ a else result)
        = toField result + toField a * AdjoinRoot.mk reductionPoly
          (C (bit (b.toBitVec.getLsbD 0))) := by
      by_cases h : b.toBitVec.getLsbD 0 = true
      · rw [if_pos ((and_one_ne_zero_iff b).mpr h), toField_xor, h]
        simp [bit]
      · rw [if_neg (mt (and_one_ne_zero_iff b).mp h),
          show b.toBitVec.getLsbD 0 = false by simpa using h]
        simp [bit]
    rw [hresult]
    ring

/-- **`gfMul` is the multiplication modulo the reduction polynomial.** -/
theorem toField_gfMul (a b : UInt8) : toField (gfMul a b) = toField a * toField b := by
  rw [gfMul, toField_gfMul_go, toField_zero, zero_add]
  rfl

theorem toField_gfSub (a b : UInt8) : toField (gfSub a b) = toField a - toField b := by
  have h : toField (gfSub a b) + toField b = toField a := by
    rw [← toField_xor, gfSub, UInt8.xor_assoc, UInt8.xor_self, UInt8.xor_zero]
  exact eq_sub_of_add_eq h

/-! ### The ring of bytes -/

/-- A byte as an element of the field. -/
@[ext]
structure GF256 where
  byte : UInt8
  deriving DecidableEq

namespace GF256

instance : Zero GF256 := ⟨⟨0⟩⟩
instance : One GF256 := ⟨⟨1⟩⟩
instance : Add GF256 := ⟨fun a b => ⟨gfAdd a.byte b.byte⟩⟩
instance : Mul GF256 := ⟨fun a b => ⟨gfMul a.byte b.byte⟩⟩
instance : Neg GF256 := ⟨id⟩

/-- `toField` on the wrapped bytes. -/
noncomputable def val (a : GF256) : AdjoinRoot reductionPoly := toField a.byte

theorem val_injective : Function.Injective val :=
  fun _ _ h => GF256.ext (toField_injective h)

@[simp] theorem val_zero : val 0 = 0 := toField_zero
@[simp] theorem val_one : val 1 = 1 := toField_one
@[simp] theorem val_add (a b : GF256) : val (a + b) = val a + val b := toField_gfAdd _ _
@[simp] theorem val_mul (a b : GF256) : val (a * b) = val a * val b := toField_gfMul _ _
@[simp] theorem val_neg (a : GF256) : val (-a) = -val a := by
  have h : val a + val a = 0 := by
    rw [← val_add, ← val_zero]
    exact congrArg val (GF256.ext (UInt8.xor_self))
  exact eq_neg_of_add_eq_zero_left h

instance : CommRing GF256 where
  add_assoc a b c := val_injective (by simp [add_assoc])
  zero_add a := val_injective (by simp)
  add_zero a := val_injective (by simp)
  add_comm a b := val_injective (by simp [add_comm])
  neg_add_cancel a := val_injective (by simp)
  mul_assoc a b c := val_injective (by simp [mul_assoc])
  one_mul a := val_injective (by simp)
  mul_one a := val_injective (by simp)
  zero_mul a := val_injective (by simp)
  mul_zero a := val_injective (by simp)
  left_distrib a b c := val_injective (by simp [mul_add])
  right_distrib a b c := val_injective (by simp [add_mul])
  mul_comm a b := val_injective (by simp [mul_comm])
  nsmul := nsmulRec
  zsmul := zsmulRec

instance : Nontrivial GF256 := ⟨⟨0, 1, by decide⟩⟩

theorem sub_eq_add (a b : GF256) : a - b = a + b := by
  rw [sub_eq_add_neg]
  rfl

/-! ### Every nonzero byte is a power of `0x03` -/

/-- The bit mask of the first `k` bytes of the orbit of `x` under multiplication by `0x03`. -/
def orbitMask : ℕ → UInt8 → ℕ → ℕ
  | 0, _, mask => mask
  | k + 1, x, mask => orbitMask k (gfMul 3 x) (mask ||| 2 ^ x.toNat)

theorem testBit_orbitMask : ∀ (k : ℕ) (x : UInt8) (mask i : ℕ),
    (orbitMask k x mask).testBit i = true →
      mask.testBit i = true ∨ ∃ j, ((⟨3⟩ : GF256) ^ j * (⟨x⟩ : GF256)).byte.toNat = i := by
  intro k
  induction k with
  | zero => intro x mask i h; exact Or.inl h
  | succ k ih =>
    intro x mask i h
    rw [orbitMask] at h
    rcases ih _ _ _ h with h | ⟨j, hj⟩
    · rw [Nat.testBit_or, Bool.or_eq_true, Nat.testBit_two_pow, decide_eq_true_eq] at h
      rcases h with h | h
      · exact Or.inl h
      · exact Or.inr ⟨0, by rw [pow_zero, one_mul]; exact h⟩
    · refine Or.inr ⟨j + 1, ?_⟩
      rw [pow_succ, mul_assoc]
      exact hj

theorem orbitMask_three : orbitMask 255 1 0 = 2 ^ 256 - 2 := by decide +kernel

theorem exists_pow_three_eq (a : GF256) (ha : a ≠ 0) : ∃ j, (⟨3⟩ : GF256) ^ j = a := by
  have hlt : a.byte.toNat < 256 := a.byte.toNat_lt
  have hpos : a.byte.toNat ≠ 0 := fun h => ha (GF256.ext (UInt8.toNat_inj.mp h))
  have hbit : (orbitMask 255 1 0).testBit a.byte.toNat = true := by
    rw [orbitMask_three]
    have : ∀ i < 256, i ≠ 0 → (2 ^ 256 - 2).testBit i = true := by decide +kernel
    exact this _ hlt hpos
  rcases testBit_orbitMask _ _ _ _ hbit with h | ⟨j, hj⟩
  · simp at h
  · refine ⟨j, ?_⟩
    have h := GF256.ext (UInt8.toNat_inj.mp hj)
    rwa [show (⟨1⟩ : GF256) = 1 from rfl, mul_one] at h

theorem isUnit_of_ne_zero (a : GF256) (ha : a ≠ 0) : IsUnit a := by
  -- `0xF6` is the inverse of `0x03`
  have h3 : IsUnit (⟨3⟩ : GF256) := IsUnit.of_mul_eq_one ⟨0xF6⟩ (by decide)
  obtain ⟨j, rfl⟩ := exists_pow_three_eq a ha
  exact h3.pow j

end GF256

/-- **The quotient by the reduction polynomial is a field.** -/
theorem isField_adjoinRoot : IsField (AdjoinRoot reductionPoly) where
  exists_pair_ne := ⟨0, 1, by
    rw [← toField_zero, ← toField_one]
    exact toField_injective.ne (by decide)⟩
  mul_comm := mul_comm
  mul_inv_cancel := by
    intro y hy
    obtain ⟨a, rfl⟩ := toField_bijective.surjective y
    have ha : (⟨a⟩ : GF256) ≠ 0 := by
      rintro h
      exact hy (by rw [show a = 0 from congrArg GF256.byte h, toField_zero])
    obtain ⟨b, hb⟩ := (GF256.isUnit_of_ne_zero _ ha).exists_right_inv
    have hval := congrArg GF256.val hb
    rw [GF256.val_mul, GF256.val_one] at hval
    exact ⟨toField b.byte, hval⟩

end Ostrich.Kra
