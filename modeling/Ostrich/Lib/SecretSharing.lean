import Mathlib.LinearAlgebra.Lagrange

/-!
# Threshold secret sharing over a field

The mathematics of Shamir's scheme over an arbitrary field `F`.

* `listPoly cs` is the polynomial with the coefficients `cs`, constant term first.
* `sum_lagrange_eq_eval`: a polynomial of degree below the number of distinct points has, at any
  `z`, the value of the Lagrange sum over its values at the points.
* `maskPoly s` has degree `s.card`, the value `1` at `0` and vanishes on `s`: adding a multiple of
  it changes the value at `0` and none of the values on `s`.
-/

namespace Ostrich.SecretSharing

open Polynomial

variable {F : Type*} [Field F]

/-! ### Polynomials from lists of coefficients -/

/-- The polynomial with the coefficients `cs`, constant term first. -/
noncomputable def listPoly : List F → F[X]
  | [] => 0
  | c :: cs => C c + X * listPoly cs

theorem coeff_listPoly : ∀ (cs : List F) (i : ℕ), (listPoly cs).coeff i = cs[i]?.getD 0
  | [], i => by simp [listPoly]
  | c :: cs, 0 => by simp [listPoly]
  | c :: cs, i + 1 => by
    rw [listPoly, coeff_add, coeff_C_succ, zero_add, coeff_X_mul, coeff_listPoly cs i]
    simp

theorem degree_listPoly_lt (cs : List F) : (listPoly cs).degree < cs.length := by
  rw [degree_lt_iff_coeff_zero]
  intro i hi
  rw [coeff_listPoly, List.getElem?_eq_none hi]
  rfl

theorem eval_listPoly_cons (c : F) (cs : List F) (x : F) :
    (listPoly (c :: cs)).eval x = c + x * (listPoly cs).eval x := by
  simp [listPoly]

theorem eval_zero_listPoly_cons (c : F) (cs : List F) : (listPoly (c :: cs)).eval 0 = c := by
  simp [listPoly]

/-! ### Interpolation -/

/-- **Lagrange interpolation**, in the form of a sum of fractions. -/
theorem sum_lagrange_eq_eval {n : ℕ} (x : Fin n → F) (hx : Function.Injective x) (f : F[X])
    (hf : f.degree < n) (z : F) :
    ∑ i, f.eval (x i) * ((∏ j ∈ Finset.univ.erase i, (z - x j))
        / ∏ j ∈ Finset.univ.erase i, (x i - x j)) = f.eval z := by
  have hinterp := Lagrange.eq_interpolate (s := Finset.univ) (v := x) (f := f) hx.injOn
    (by rwa [Finset.card_univ, Fintype.card_fin])
  conv_rhs => rw [hinterp]
  rw [Lagrange.interpolate_apply, eval_finsetSum]
  refine Finset.sum_congr rfl fun i _ => ?_
  rw [eval_mul, eval_C, Lagrange.basis, eval_prod, ← Finset.prod_div_distrib]
  congr 1
  refine Finset.prod_congr rfl fun j _ => ?_
  rw [Lagrange.basisDivisor, eval_mul, eval_C, eval_sub, eval_X, eval_C]
  ring

/-! ### Masks -/

/-- The polynomial that is `1` at `0` and vanishes on `s`. -/
noncomputable def maskPoly (s : Finset F) : F[X] := ∏ x ∈ s, (C (-x)⁻¹ * (X - C x))

theorem eval_maskPoly_zero (s : Finset F) (h0 : (0 : F) ∉ s) : (maskPoly s).eval 0 = 1 := by
  rw [maskPoly, eval_prod]
  refine Finset.prod_eq_one fun x hx => ?_
  have hne : -x ≠ 0 := neg_ne_zero.mpr fun h => h0 (h ▸ hx)
  rw [eval_mul, eval_C, eval_sub, eval_X, eval_C, zero_sub, inv_mul_cancel₀ hne]

theorem eval_maskPoly_of_mem (s : Finset F) {x : F} (hx : x ∈ s) : (maskPoly s).eval x = 0 := by
  rw [maskPoly, eval_prod]
  refine Finset.prod_eq_zero hx ?_
  simp

theorem degree_maskPoly_le (s : Finset F) : (maskPoly s).degree ≤ s.card := by
  refine (degree_prod_le _ _).trans ?_
  calc ∑ x ∈ s, (C (-x)⁻¹ * (X - C x)).degree ≤ ∑ _x ∈ s, (1 : WithBot ℕ) := by
        refine Finset.sum_le_sum fun x _ => ?_
        have h := (degree_mul_le (C (-x)⁻¹) (X - C x)).trans
          (add_le_add degree_C_le (degree_X_sub_C_le x))
        rwa [zero_add] at h
    _ = s.card := by simp

end Ostrich.SecretSharing
