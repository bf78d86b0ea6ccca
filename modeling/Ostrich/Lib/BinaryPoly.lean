import Mathlib.Algebra.CharP.Two
import Mathlib.Algebra.Field.ZMod
import Mathlib.RingTheory.AdjoinRoot

/-!
# Bit vectors as polynomials over GF(2)

`toPoly x` is the polynomial over `ZMod 2` whose coefficients are the bits of `x`, and
`toQuot q x` its class modulo `q`.  Exclusive or is addition (`toPoly_xor`), a left shift
multiplies by `X` except for the bit that it drops (`X_mul_toPoly`), and `toQuot q` is injective
when `q` is longer than the bit vector (`toQuot_injective`), so that an identity of the quotient
ring is an identity of bit vectors; it reaches every class when `q` is monic and no longer than
that (`toQuot_surjective`).

`polyPrefix k x` is the part of `toPoly x` below `X^k`: what a shift-and-add loop has consumed
of `x` after `k` rounds (`polyPrefix_succ`).
-/

namespace Ostrich.BinaryPoly

open Polynomial

/-- A bit as an element of `ZMod 2`. -/
def bit (b : Bool) : ZMod 2 := if b then 1 else 0

theorem bit_xor (a b : Bool) : bit (a ^^ b) = bit a + bit b := by
  revert a b; decide

theorem bit_injective : Function.Injective bit := by
  intro a b; revert a b; decide

/-- The part below `X^k` of the polynomial of `x`. -/
noncomputable def polyPrefix {w : ℕ} (k : ℕ) (x : BitVec w) : (ZMod 2)[X] :=
  ∑ i ∈ Finset.range k, C (bit (x.getLsbD i)) * X ^ i

/-- The polynomial whose coefficients are the bits of `x`. -/
noncomputable def toPoly {w : ℕ} (x : BitVec w) : (ZMod 2)[X] := polyPrefix w x

variable {w : ℕ}

theorem coeff_polyPrefix (k : ℕ) (x : BitVec w) (i : ℕ) :
    (polyPrefix k x).coeff i = if i < k then bit (x.getLsbD i) else 0 := by
  simp [polyPrefix, coeff_X_pow]

theorem coeff_toPoly (x : BitVec w) (i : ℕ) : (toPoly x).coeff i = bit (x.getLsbD i) := by
  rw [toPoly, coeff_polyPrefix]
  split_ifs with h
  · rfl
  · rw [BitVec.getLsbD_of_ge x i (by omega)]
    rfl

theorem toPoly_xor (x y : BitVec w) : toPoly (x ^^^ y) = toPoly x + toPoly y := by
  ext i
  rw [coeff_add, coeff_toPoly, coeff_toPoly, coeff_toPoly, BitVec.getLsbD_xor, bit_xor]

theorem toPoly_zero : toPoly (0 : BitVec w) = 0 := by
  ext i
  rw [coeff_toPoly, coeff_zero]
  simp [bit]

theorem toPoly_injective : Function.Injective (toPoly (w := w)) := by
  intro x y h
  apply BitVec.eq_of_getLsbD_eq
  intro i _
  apply bit_injective
  rw [← coeff_toPoly, ← coeff_toPoly, h]

theorem degree_toPoly_lt (x : BitVec w) : (toPoly x).degree < w := by
  rw [degree_lt_iff_coeff_zero]
  intro i hi
  rw [coeff_toPoly, BitVec.getLsbD_of_ge x i hi]
  rfl

/-- A left shift multiplies by `X`, but for the top bit, which leaves the vector. -/
theorem X_mul_toPoly (x : BitVec (w + 1)) :
    X * toPoly x = toPoly (x <<< 1) + C (bit (x.getLsbD w)) * X ^ (w + 1) := by
  ext i
  rw [coeff_add, coeff_toPoly, BitVec.getLsbD_shiftLeft, coeff_C_mul, coeff_X_pow]
  cases i with
  | zero => simp [bit]
  | succ i =>
    rw [coeff_X_mul, coeff_toPoly]
    rcases lt_trichotomy i w with h | h | h
    · simp [h, h.ne]
    · simp [h, bit]
    · rw [BitVec.getLsbD_of_ge x i (by omega)]
      simp [bit, show ¬ i < w by omega, show i ≠ w by omega]

/-- The degree is below `k` exactly when the number is below `2^k`. -/
theorem degree_toPoly_lt_iff (x : BitVec w) (k : ℕ) : (toPoly x).degree < k ↔ x.toNat < 2 ^ k := by
  rw [degree_lt_iff_coeff_zero]
  constructor
  · intro h
    apply Nat.lt_pow_two_of_testBit
    intro i hi
    have hc := h i hi
    rw [coeff_toPoly] at hc
    have hbit : bit (x.toNat.testBit i) = bit false := hc
    exact bit_injective hbit
  · intro h i hi
    rw [coeff_toPoly, BitVec.getLsbD, Nat.testBit_lt_two_pow (lt_of_lt_of_le h
      (Nat.pow_le_pow_right (by omega) hi))]
    rfl

/-- A left shift that drops no set bit multiplies by a power of `X`. -/
theorem toPoly_shiftLeft (x : BitVec w) (n : ℕ) (h : x.toNat * 2 ^ n < 2 ^ w) :
    toPoly (x <<< n) = X ^ n * toPoly x := by
  ext i
  rw [coeff_toPoly, coeff_X_pow_mul', coeff_toPoly, BitVec.getLsbD, BitVec.toNat_shiftLeft,
    Nat.shiftLeft_eq, Nat.mod_eq_of_lt h, Nat.testBit_mul_two_pow]
  split_ifs with hi
  · simp [hi, BitVec.getLsbD]
  · simp [hi, bit]

/-- The low bit and the rest. -/
theorem toPoly_eq_bit_add (x : BitVec w) :
    toPoly x = C (bit (x.getLsbD 0)) + X * toPoly (x >>> 1) := by
  ext i
  rw [coeff_toPoly, coeff_add, coeff_C]
  cases i with
  | zero => simp
  | succ i =>
    rw [coeff_X_mul, coeff_toPoly, BitVec.getLsbD_ushiftRight]
    simp [Nat.add_comm 1 i]

/-- Adding two polynomials of one degree lowers the degree: both lead with `1`. -/
theorem degree_add_lt_of_degree_eq {f g : (ZMod 2)[X]} (hf : f ≠ 0) (h : f.degree = g.degree) :
    (f + g).degree < f.degree := by
  have hone : ∀ c : ZMod 2, c ≠ 0 → c = 1 := by decide
  have hg : g ≠ 0 := by
    rintro rfl
    exact hf (degree_eq_bot.mp (h.trans degree_zero))
  rw [← CharTwo.sub_eq_add]
  refine degree_sub_lt_left h hf ?_
  rw [hone _ (leadingCoeff_ne_zero.mpr hf), hone _ (leadingCoeff_ne_zero.mpr hg)]

/-- One round of a shift-and-add loop consumes the low bit. -/
theorem polyPrefix_succ (k : ℕ) (x : BitVec w) :
    polyPrefix (k + 1) x = C (bit (x.getLsbD 0)) + X * polyPrefix k (x >>> 1) := by
  ext i
  rw [coeff_polyPrefix, coeff_add, coeff_C]
  cases i with
  | zero => simp
  | succ i =>
    rw [coeff_X_mul, coeff_polyPrefix, BitVec.getLsbD_ushiftRight]
    simp [Nat.add_comm 1 i]

/-! ### Modulo a polynomial -/

/-- The class of `toPoly x` modulo `q`. -/
noncomputable def toQuot (q : (ZMod 2)[X]) (x : BitVec w) : AdjoinRoot q :=
    AdjoinRoot.mk q (toPoly x)

variable (q : (ZMod 2)[X])

theorem toQuot_xor (x y : BitVec w) : toQuot q (x ^^^ y) = toQuot q x + toQuot q y := by
  rw [toQuot, toPoly_xor, map_add]
  rfl

theorem toQuot_zero : toQuot q (0 : BitVec w) = 0 := by
  rw [toQuot, toPoly_zero, map_zero]

/-- Distinct bit vectors are distinct modulo a polynomial of at least their length. -/
theorem toQuot_injective (hq : (w : WithBot ℕ) ≤ q.degree) :
    Function.Injective (toQuot (w := w) q) := by
  intro x y h
  have hdvd : q ∣ toPoly x - toPoly y := by
    rw [← AdjoinRoot.mk_eq_mk]
    exact h
  have hdeg : (toPoly x - toPoly y).degree < q.degree :=
    lt_of_lt_of_le (lt_of_le_of_lt (degree_sub_le _ _)
      (max_lt (degree_toPoly_lt x) (degree_toPoly_lt y))) hq
  have hzero := eq_zero_of_dvd_of_degree_lt hdvd hdeg
  exact toPoly_injective (sub_eq_zero.mp hzero)

/-- Every polynomial shorter than the bit vectors is the polynomial of one. -/
theorem exists_toPoly_eq {f : (ZMod 2)[X]} (hf : f.degree < w) : ∃ x : BitVec w, toPoly x = f := by
  have hbits (i : ℕ) : f.coeff i = bit (decide (f.coeff i = 1)) := by
    generalize f.coeff i = c
    revert c
    decide
  set bits := (List.range w).map fun i => decide (f.coeff i = 1) with hdef
  refine ⟨(BitVec.ofBoolListLE bits).setWidth w, ?_⟩
  ext i
  rw [coeff_toPoly, BitVec.getLsbD_setWidth, BitVec.getLsbD_ofBoolListLE]
  by_cases hi : i < w
  · rw [hbits i]
    simp [hdef, hi]
  · rw [coeff_eq_zero_of_degree_lt (hf.trans_le (by exact_mod_cast not_lt.mp hi))]
    simp [hi, bit]

/-- Bit vectors as long as the modulus reach every class. -/
theorem toQuot_surjective (hmonic : q.Monic) (hq : q.degree ≤ w) :
    Function.Surjective (toQuot (w := w) q) := by
  intro y
  obtain ⟨f, rfl⟩ := AdjoinRoot.mk_surjective y
  obtain ⟨x, hx⟩ := exists_toPoly_eq (w := w) ((degree_modByMonic_lt f hmonic).trans_le hq)
  refine ⟨x, ?_⟩
  rw [toQuot, hx, AdjoinRoot.mk_eq_mk, modByMonic_eq_sub_mul_div]
  exact ⟨-(f /ₘ q), by ring⟩

end Ostrich.BinaryPoly
