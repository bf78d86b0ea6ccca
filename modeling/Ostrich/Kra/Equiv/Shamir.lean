import Ostrich.Kra.Equiv.Inverse
import Ostrich.Lib.SecretSharing

/-!
# Shamir round trip and secrecy

The loops of `shamir.rs` in terms of the field `GF256`:

* `evaluatePolynomial_eq`: `evaluatePolynomial` evaluates `listPoly` of its coefficients;
* `lagrangeInterpolate_eq`: `lagrangeInterpolate` is the Lagrange sum when the points have
  distinct x-coordinates (otherwise it divides by zero);
* `split_go_eq`: the value of a share is the list of the values of one polynomial for each byte.

`reconstruct_split` is the round trip for every choice of coefficients, and
`split_secrecy` that fewer than `threshold` shares say nothing about the secret: adding the mask
of the observed indices to the coefficients is a bijection that turns the shares of one secret
into those of another.
-/

namespace Ostrich.Kra

open Polynomial SecretSharing

/-! ### Evaluation -/

/-- The polynomial of a list of coefficient bytes. -/
noncomputable def bytePoly (coefficients : List UInt8) : GF256[X] :=
    listPoly (coefficients.map GF256.mk)

theorem evaluatePolynomial_foldl (x : UInt8) :
    ∀ (coefficients : List UInt8) (result xPower : UInt8),
    (⟨(coefficients.foldl (fun (acc : UInt8 × UInt8) coef =>
        (gfAdd acc.1 (gfMul coef acc.2), gfMul acc.2 x)) (result, xPower)).1⟩ : GF256)
      = ⟨result⟩ + ⟨xPower⟩ * (bytePoly coefficients).eval ⟨x⟩ := by
  intro coefficients
  induction coefficients with
  | nil => intro result xPower; simp [bytePoly, listPoly]
  | cons c cs ih =>
    intro result xPower
    have hcons : (bytePoly (c :: cs)).eval ⟨x⟩ = ⟨c⟩ + ⟨x⟩ * (bytePoly cs).eval ⟨x⟩ :=
      eval_listPoly_cons _ _ _
    rw [List.foldl_cons, ih, hcons]
    have hadd : (⟨gfAdd result (gfMul c xPower)⟩ : GF256) = ⟨result⟩ + ⟨c⟩ * ⟨xPower⟩ := rfl
    have hmul : (⟨gfMul xPower x⟩ : GF256) = ⟨xPower⟩ * ⟨x⟩ := rfl
    rw [hadd, hmul]
    ring

theorem evaluatePolynomial_eq (coefficients : List UInt8) (x : UInt8) :
    (⟨evaluatePolynomial coefficients x⟩ : GF256) = (bytePoly coefficients).eval ⟨x⟩ := by
  rw [evaluatePolynomial, evaluatePolynomial_foldl]
  change 0 + 1 * _ = _
  rw [zero_add, one_mul]

/-! ### Interpolation -/

/-- A list with its indices is the list of its elements by index. -/
theorem zipIdx_eq_ofFn {α : Type} (l : List α) :
    l.zipIdx = List.ofFn fun i : Fin l.length => (l.get i, i.val) := by
  apply List.ext_getElem
  · simp
  · intro i h1 h2
    simp

theorem foldl_fraction (x xi : UInt8) (i : ℕ) :
    ∀ (l : List ((UInt8 × UInt8) × ℕ)) (num den : UInt8),
    l.foldl (fun (acc : UInt8 × UInt8) (p : (UInt8 × UInt8) × ℕ) =>
        if i ≠ p.2 then (gfMul acc.1 (gfSub x p.1.1), gfMul acc.2 (gfSub xi p.1.1))
          else acc) (num, den)
      = (((⟨num⟩ : GF256) * (l.map fun p =>
        if i ≠ p.2 then (⟨x⟩ - ⟨p.1.1⟩ : GF256) else 1).prod).byte,
        ((⟨den⟩ : GF256) * (l.map fun p =>
          if i ≠ p.2 then (⟨xi⟩ - ⟨p.1.1⟩ : GF256) else 1).prod).byte) := by
  intro l
  induction l with
  | nil => intro num den; simp
  | cons p l ih =>
    intro num den
    rw [List.foldl_cons, List.map_cons, List.map_cons, List.prod_cons, List.prod_cons]
    by_cases h : i ≠ p.2
    · rw [if_pos h, if_pos h, if_pos h, ih, ← mul_assoc, ← mul_assoc, GF256.sub_eq_add,
        GF256.sub_eq_add]
      rfl
    · rw [if_neg h, if_neg h, if_neg h, ih, one_mul, one_mul]

theorem prod_erase_eq {n : ℕ} (i : Fin n) (g : Fin n → GF256) :
    (List.ofFn fun j : Fin n => if i.val ≠ j.val then g j else 1).prod
      = ∏ j ∈ Finset.univ.erase i, g j := by
  rw [List.prod_ofFn, ← Finset.prod_erase_mul Finset.univ _ (Finset.mem_univ i), if_neg (by simp),
    mul_one]
  refine Finset.prod_congr rfl fun j hj => ?_
  rw [if_pos]
  intro h
  exact (Finset.ne_of_mem_erase hj) (Fin.ext h.symm)

theorem lagrangeFraction_eq (points : List (UInt8 × UInt8)) (x : UInt8) (i : Fin points.length) :
    lagrangeFraction points x i (points.get i).1
      = ((∏ j ∈ Finset.univ.erase i, ((⟨x⟩ : GF256) - ⟨(points.get j).1⟩)).byte,
        (∏ j ∈ Finset.univ.erase i, ((⟨(points.get i).1⟩ : GF256) - ⟨(points.get j).1⟩)).byte) := by
  rw [lagrangeFraction, foldl_fraction, zipIdx_eq_ofFn, List.map_ofFn, List.map_ofFn]
  rw [show (⟨1⟩ : GF256) = 1 from rfl, one_mul, one_mul]
  rw [← prod_erase_eq i fun j => (⟨x⟩ : GF256) - ⟨(points.get j).1⟩,
    ← prod_erase_eq i fun j => (⟨(points.get i).1⟩ : GF256) - ⟨(points.get j).1⟩]
  rfl

/-- **`lagrangeInterpolate` gives the value of the polynomial through the points.** -/
theorem lagrangeInterpolate_eq (points : List (UInt8 × UInt8))
    (hnodup : (points.map Prod.fst).Nodup)
    (x : UInt8) (f : GF256[X]) (hf : f.degree < points.length)
    (hpoints : ∀ p ∈ points, f.eval ⟨p.1⟩ = ⟨p.2⟩) :
    lagrangeInterpolate points x = .ok (f.eval ⟨x⟩).byte := by
  set node : Fin points.length → GF256 := fun i => ⟨(points.get i).1⟩ with hnode
  have hinj : Function.Injective node := by
    intro i j h
    by_contra hij
    have hpair := List.pairwise_map.mp hnodup
    rcases lt_or_gt_of_ne hij with hlt | hlt
    · exact List.pairwise_iff_get.mp hpair i j hlt (congrArg GF256.byte h)
    · exact List.pairwise_iff_get.mp hpair j i hlt (congrArg GF256.byte h).symm
  set term : Fin points.length → GF256 := fun i =>
    f.eval (node i) * ((∏ j ∈ Finset.univ.erase i, ((⟨x⟩ : GF256) - node j))
      / ∏ j ∈ Finset.univ.erase i, (node i - node j)) with hterm
  rw [lagrangeInterpolate, zipIdx_eq_ofFn]
  rw [Outcome.foldlM_ok (g := fun result p =>
    ((⟨result⟩ : GF256) + if h : p.2 < points.length then term ⟨p.2, h⟩ else 0).byte)]
  · congr 1
    -- the fold adds the terms up
    have hfold : ∀ (l : List (Fin points.length)) (acc : GF256),
        (l.map fun i => (points.get i, i.val)).foldl (fun (result : UInt8) p =>
          ((⟨result⟩ : GF256) + if h : p.2 < points.length then term ⟨p.2, h⟩ else 0).byte) acc.byte
          = (acc + (l.map term).sum).byte := by
      intro l
      induction l with
      | nil => intro acc; simp
      | cons i l ih =>
        intro acc
        rw [List.map_cons, List.foldl_cons, List.map_cons, List.sum_cons, ← add_assoc, ← ih]
        simp
    have h := hfold (List.finRange points.length) 0
    rw [← List.ofFn_eq_map, ← List.ofFn_eq_map] at h
    rw [show (0 : GF256).byte = 0 from rfl] at h
    rw [h, List.sum_ofFn, zero_add, hterm, sum_lagrange_eq_eval node hinj f hf]
  · intro result p hp
    obtain ⟨i, rfl⟩ := List.mem_ofFn.mp hp
    have hden : ∏ j ∈ Finset.univ.erase i, (node i - node j) ≠ 0 := by
      rw [Finset.prod_ne_zero_iff]
      intro j hj
      exact sub_ne_zero.mpr fun h => (Finset.ne_of_mem_erase hj) (hinj h).symm
    have hy : (points.get i).2 = (f.eval (node i)).byte :=
      congrArg GF256.byte (hpoints _ (List.get_mem ..)).symm
    dsimp only
    rw [lagrangeFraction_eq, gfDiv_eq, if_neg hden, Outcome.ok_bind, dif_pos i.isLt, hy]
    rfl

/-! ### The shares of a split -/

/-- The coefficients that `split` uses for a byte when `pos` bytes have been drawn. -/
def byteCoefficients (draws : ℕ → UInt8) (threshold pos : ℕ) (secretByte : UInt8) : List UInt8 :=
  secretByte :: (List.range (threshold - 1)).map fun j => draws (pos + j)

/-- What the loop of `split` appends to the share with index `x`. -/
def shareValue (draws : ℕ → UInt8) (threshold : ℕ) : List UInt8 → ℕ → UInt8 → List UInt8
  | [], _, _ => []
  | secretByte :: rest, pos, x =>
    evaluatePolynomial (byteCoefficients draws threshold pos secretByte) x
      :: shareValue draws threshold rest (pos + (threshold - 1)) x

theorem split_go_eq (draws : ℕ → UInt8) (threshold : ℕ) :
    ∀ (secret : List UInt8) (pos : ℕ) (shares : List Share),
      split.go draws threshold secret pos shares
        = shares.map fun s =>
          ⟨s.index, s.value ++ shareValue draws threshold secret pos s.index⟩ := by
  intro secret
  induction secret with
  | nil => intro pos shares; simp [split.go, shareValue]
  | cons b rest ih =>
    intro pos shares
    rw [split.go, ih, List.map_map]
    refine List.map_congr_left fun s _ => ?_
    simp [shareValue, byteCoefficients]

/-- The shares of a split: one for each of the indices `1, …, numShares`. -/
theorem split_eq (draws : ℕ → UInt8) (secret : List UInt8) {threshold numShares : ℕ}
    (ht : 1 ≤ threshold) (htn : threshold ≤ numShares) (hn : numShares ≤ 255) :
    split draws secret threshold numShares = .ok ((List.range numShares).map fun i =>
      ⟨UInt8.ofNat (i + 1), shareValue draws threshold secret 0 (UInt8.ofNat (i + 1))⟩) := by
  rw [split, if_neg (by omega), if_neg (by omega), if_neg (by omega)]
  dsimp only
  rw [split_go_eq, List.map_map]
  rfl

theorem length_shareValue (draws : ℕ → UInt8) (threshold : ℕ) (x : UInt8) :
    ∀ (secret : List UInt8) (pos : ℕ),
      (shareValue draws threshold secret pos x).length = secret.length := by
  intro secret
  induction secret with
  | nil => intro pos; rfl
  | cons b rest ih => intro pos; rw [shareValue, List.length_cons, ih, List.length_cons]

theorem getElem?_shareValue (draws : ℕ → UInt8) (threshold : ℕ) (x : UInt8) :
    ∀ (secret : List UInt8) (pos i : ℕ),
      (shareValue draws threshold secret pos x)[i]? = secret[i]?.map fun b =>
        evaluatePolynomial
          (byteCoefficients draws threshold (pos + i * (threshold - 1)) b) x := by
  intro secret
  induction secret with
  | nil => intro pos i; simp [shareValue]
  | cons b rest ih =>
    intro pos i
    cases i with
    | zero => simp [shareValue]
    | succ i =>
      rw [shareValue, List.getElem?_cons_succ, ih, List.getElem?_cons_succ,
        show pos + (threshold - 1) + i * (threshold - 1) = pos + (i + 1) * (threshold - 1) by ring]

theorem degree_bytePoly_lt (draws : ℕ → UInt8) {threshold : ℕ} (ht : 1 ≤ threshold) (pos : ℕ)
    (b : UInt8) : (bytePoly (byteCoefficients draws threshold pos b)).degree < threshold := by
  have h := degree_listPoly_lt ((byteCoefficients draws threshold pos b).map GF256.mk)
  have hlen : ((byteCoefficients draws threshold pos b).map GF256.mk).length = threshold := by
    simp only [byteCoefficients, List.length_map, List.length_cons, List.length_range]
    omega
  rwa [hlen] at h

/-! ### Round trip -/

theorem indexOrPanic_of_getElem? {α : Type} {v : List α} {i : ℕ} {a : α} (h : v[i]? = some a) :
    indexOrPanic v i = .ok a := by
  rw [indexOrPanic, h]

/-- The bytes at one position of the shares in use rebuild the byte of the secret. -/
theorem lagrangeInterpolate_shareValue (draws : ℕ → UInt8) (secret : List UInt8) {threshold : ℕ}
    (ht : 1 ≤ threshold) {l : List Share} (hlen : l.length = threshold)
    (hl : ∀ s ∈ l, s.value = shareValue draws threshold secret 0 s.index)
    (hnodup : (l.map Share.index).Nodup) {i : ℕ} {b : UInt8} (hb : secret[i]? = some b) :
    (do let points ← sharePoints l i; lagrangeInterpolate points 0) = .ok b := by
  set coefficients := byteCoefficients draws threshold (0 + i * (threshold - 1)) b with hc
  have hpoints : sharePoints l i
      = .ok (l.map fun s => (s.index, evaluatePolynomial coefficients s.index)) := by
    refine Outcome.mapM_ok l fun s hs => ?_
    have hval : s.value[i]? = some (evaluatePolynomial coefficients s.index) := by
      rw [hl s hs, getElem?_shareValue, hb, Option.map_some]
    rw [indexOrPanic_of_getElem? hval]
    rfl
  have hdegree : (bytePoly coefficients).degree
      < (l.map fun s => (s.index, evaluatePolynomial coefficients s.index)).length := by
    rw [List.length_map, hlen]
    exact degree_bytePoly_lt draws ht _ b
  have hvalues : ∀ p ∈ l.map fun s => (s.index, evaluatePolynomial coefficients s.index),
      (bytePoly coefficients).eval ⟨p.1⟩ = ⟨p.2⟩ := by
    intro p hp
    obtain ⟨s, _, rfl⟩ := List.mem_map.mp hp
    exact (evaluatePolynomial_eq coefficients s.index).symm
  have h0 : (bytePoly coefficients).eval 0 = ⟨b⟩ := eval_zero_listPoly_cons _ _
  rw [hpoints, Outcome.ok_bind,
    lagrangeInterpolate_eq _ (by rwa [List.map_map]) 0 (bytePoly coefficients) hdegree hvalues]
  exact congrArg Outcome.ok (congrArg GF256.byte h0)

theorem reconstruct_of_shareValue (draws : ℕ → UInt8) (secret : List UInt8) {threshold : ℕ}
    (ht : 1 ≤ threshold) {l : List Share} (hlen : threshold ≤ l.length)
    (hl : ∀ s ∈ l, s.value = shareValue draws threshold secret 0 s.index)
    (hnodup : (l.map Share.index).Nodup) : reconstruct l threshold = .ok secret := by
  have htake : ∀ s ∈ l.take threshold,
      s.value = shareValue draws threshold secret 0 s.index :=
    fun s hs => hl s (List.mem_of_mem_take hs)
  have htakeLen : (l.take threshold).length = threshold := by
    rw [List.length_take, Nat.min_eq_left hlen]
  have htakeNodup : ((l.take threshold).map Share.index).Nodup := by
    rw [List.map_take]
    exact hnodup.sublist (List.take_sublist ..)
  obtain ⟨first, hfirst⟩ : ∃ s, (l.take threshold)[0]? = some s :=
    ⟨_, List.getElem?_eq_getElem (by omega)⟩
  have hvalueLen : ∀ s ∈ l.take threshold, s.value.length = secret.length := by
    intro s hs
    rw [htake s hs, length_shareValue]
  have hfirstLen := hvalueLen first (List.mem_of_getElem? hfirst)
  rw [reconstruct, if_neg (by omega)]
  dsimp only
  rw [indexOrPanic_of_getElem? hfirst, Outcome.ok_bind, hfirstLen, if_neg]
  · rw [Outcome.mapM_ok (g := fun i => secret[i]?.getD 0)]
    · congr 1
      refine List.ext_getElem (by simp) fun i h1 h2 => ?_
      simp [List.getElem?_eq_getElem h2]
    · intro i hi
      have hb : secret[i]? = some (secret[i]?.getD 0) := by
        rw [List.getElem?_eq_getElem (List.mem_range.mp hi)]
        rfl
      exact lagrangeInterpolate_shareValue draws secret ht htakeLen htake htakeNodup hb
  · simpa using hvalueLen

/-- **Round trip**: whatever bytes the generator draws, any `threshold` or more shares of a split
with distinct indices, in any order, rebuild the secret; and the operations that do it are those
of the field of polynomials over two elements modulo `reductionPoly`. -/
theorem reconstruct_split (draws : ℕ → UInt8) (secret : List UInt8) (threshold numShares : ℕ)
    (ht : 1 ≤ threshold) (htn : threshold ≤ numShares) (hn : numShares ≤ 255) :
    (∃ shares, split draws secret threshold numShares = .ok shares ∧ shares.length = numShares ∧
      ∀ l : List Share, (∀ s ∈ l, s ∈ shares) → (l.map Share.index).Nodup →
        threshold ≤ l.length → reconstruct l threshold = .ok secret) ∧
    Function.Bijective toField ∧ IsField (AdjoinRoot reductionPoly) ∧
    (∀ a b, toField (gfAdd a b) = toField a + toField b) ∧
    (∀ a b, toField (gfSub a b) = toField a - toField b) ∧
    (∀ a b, toField (gfMul a b) = toField a * toField b) ∧
    (∀ a, a ≠ 0 → ∃ i, gfInv a = .ok i ∧ toField a * toField i = 1) ∧
    ∀ a b, b ≠ 0 → ∃ q, gfDiv a b = .ok q ∧ toField q * toField b = toField a := by
  refine ⟨⟨_, split_eq draws secret ht htn hn, by simp, fun l hl hnodup hlen => ?_⟩,
    toField_bijective, isField_adjoinRoot, toField_gfAdd, toField_gfSub, toField_gfMul,
    fun a ha => gfInv_spec ha, fun a b hb => gfDiv_spec a hb⟩
  refine reconstruct_of_shareValue draws secret ht hlen (fun s hs => ?_) hnodup
  obtain ⟨i, _, rfl⟩ := List.mem_map.mp (hl s hs)
  rfl

theorem reconstruct_split_two_of_three :
    ∃ a b c, split (fun k => UInt8.ofNat (7 * k + 3)) [0x2A, 0xFF] 2 3 = .ok [a, b, c] ∧
      reconstruct [c, a] 2 = .ok [0x2A, 0xFF] ∧ reconstruct [b, a, c] 2 = .ok [0x2A, 0xFF] := by
  obtain ⟨⟨shares, hsplit, _, hrec⟩, _⟩ := reconstruct_split (fun k => UInt8.ofNat (7 * k + 3))
    [0x2A, 0xFF] 2 3 (by decide) (by decide) (by decide)
  have hshares : shares = [⟨1, [41, 245]⟩, ⟨2, [44, 235]⟩, ⟨3, [47, 225]⟩] :=
    Outcome.ok.inj (hsplit.symm.trans (by decide +kernel))
  subst hshares
  exact ⟨_, _, _, hsplit, hrec _ (by decide) (by decide) (by decide),
    hrec _ (by decide) (by decide) (by decide)⟩

/-! ### Secrecy -/

/-- The bytes that `split` draws for a secret of `len` bytes. -/
abbrev Draws (len threshold : ℕ) : Type := Fin (len * (threshold - 1)) → UInt8

/-- The stream of a generator that gives the bytes `ω`. -/
def Draws.stream {len threshold : ℕ} (ω : Draws len threshold) (k : ℕ) : UInt8 :=
  if h : k < len * (threshold - 1) then ω ⟨k, h⟩ else 0

/-- The coefficients of byte `i` are the `i`-th block of `threshold - 1` drawn bytes. -/
theorem block_lt {i j len width : ℕ} (hi : i < len) (hj : j < width) :
    i * width + j < len * width :=
  calc i * width + j < (i + 1) * width := by rw [Nat.succ_mul]; omega
    _ ≤ len * width := Nat.mul_le_mul_right _ hi

theorem shareValue_congr {draws draws' : ℕ → UInt8} {threshold : ℕ} {secret : List UInt8}
    (h : ∀ k < secret.length * (threshold - 1), draws k = draws' k) (x : UInt8) :
    shareValue draws threshold secret 0 x = shareValue draws' threshold secret 0 x := by
  refine List.ext_getElem? fun i => ?_
  rw [getElem?_shareValue, getElem?_shareValue]
  rcases lt_or_ge i secret.length with hi | hi
  · congr 1
    funext b
    congr 1
    refine congrArg (List.cons b) (List.map_congr_left fun j hj => ?_)
    rw [zero_add]
    exact h _ (block_lt hi (List.mem_range.mp hj))
  · rw [List.getElem?_eq_none hi]
    rfl

/-- `split` draws `threshold - 1` bytes for each byte of the secret, and nothing else. -/
theorem split_stream (draws : ℕ → UInt8) (secret : List UInt8) {threshold numShares : ℕ}
    (ht : 1 ≤ threshold) (htn : threshold ≤ numShares) (hn : numShares ≤ 255) :
    split draws secret threshold numShares
      = split (Draws.stream fun k : Fin (secret.length * (threshold - 1)) => draws k)
          secret threshold numShares := by
  rw [split_eq _ _ ht htn hn, split_eq _ _ ht htn hn]
  congr 1
  refine List.map_congr_left fun i _ => ?_
  congr 1
  refine shareValue_congr (fun k hk => ?_) _
  rw [Draws.stream, dif_pos hk]

/-- The mask of a set of share indices. -/
noncomputable def indexMask (observed : Finset UInt8) : GF256[X] :=
  maskPoly (observed.map ⟨GF256.mk, fun _ _ h => congrArg GF256.byte h⟩)

/-- What the byte `k` of the draws changes by when the secret changes: byte `i` of the secret
changes by `secret[i] - secret'[i]`, and its polynomial by that multiple of the mask. -/
noncomputable def maskByte (observed : Finset UInt8) (threshold : ℕ) (secret secret' : List UInt8)
    (k : ℕ) : UInt8 :=
  gfMul (gfAdd (secret[k / (threshold - 1)]?.getD 0) (secret'[k / (threshold - 1)]?.getD 0))
    ((indexMask observed).coeff (k % (threshold - 1) + 1)).byte

/-- Adding the mask to the draws; doing it twice changes nothing. -/
noncomputable def maskDraws (observed : Finset UInt8) (len threshold : ℕ)
    (secret secret' : List UInt8) : Equiv.Perm (Draws len threshold) :=
  Function.Involutive.toPerm
    (fun ω k => gfAdd (ω k) (maskByte observed threshold secret secret' k)) (by
      intro ω
      funext k
      dsimp only [gfAdd]
      rw [UInt8.xor_assoc, UInt8.xor_self, UInt8.xor_zero])

/-- Masking the coefficients of a byte adds a multiple of the mask to its polynomial. -/
theorem bytePoly_mask (coefficients : List UInt8) {coefficients' : List UInt8} (mask : GF256[X])
    {b b' : UInt8} (hlen : coefficients'.length = coefficients.length)
    (h0 : mask.coeff 0 = 1) (hdegree : mask.degree ≤ coefficients.length)
    (h : ∀ j < coefficients.length, coefficients'[j]?.getD 0
      = gfAdd (coefficients[j]?.getD 0) (gfMul (gfAdd b b') (mask.coeff (j + 1)).byte)) :
    bytePoly (b' :: coefficients')
      = bytePoly (b :: coefficients) + C (⟨gfAdd b b'⟩ : GF256) * mask := by
  have hmk (l : List UInt8) (j : ℕ) : (l.map GF256.mk)[j]?.getD 0 = (⟨l[j]?.getD 0⟩ : GF256) := by
    rw [List.getElem?_map]
    cases l[j]? <;> rfl
  ext i : 1
  rw [coeff_add, coeff_C_mul, bytePoly, bytePoly, coeff_listPoly, coeff_listPoly, hmk, hmk]
  rcases i with _ | j
  · rw [h0, mul_one]
    refine GF256.ext ?_
    change b' = b ^^^ (b ^^^ b')
    rw [← UInt8.xor_assoc, UInt8.xor_self, UInt8.zero_xor]
  · rw [List.getElem?_cons_succ, List.getElem?_cons_succ]
    rcases lt_or_ge j coefficients.length with hj | hj
    · rw [h j hj]
      rfl
    · rw [List.getElem?_eq_none hj, List.getElem?_eq_none (hlen ▸ hj),
        coeff_eq_zero_of_degree_lt (hdegree.trans_lt (by exact_mod_cast Nat.lt_succ_of_le hj)),
        mul_zero, add_zero]

theorem shareValue_maskDraws {observed : Finset UInt8} {threshold len : ℕ}
    {secret secret' : List UInt8} (hlen : secret.length = len) (hlen' : secret'.length = len)
    (h0 : 0 ∉ observed) (hcard : observed.card ≤ threshold - 1) (ω : Draws len threshold)
    {x : UInt8} (hx : x ∈ observed) :
    shareValue (maskDraws observed len threshold secret secret' ω).stream threshold secret' 0 x
      = shareValue ω.stream threshold secret 0 x := by
  have hmask0 : (indexMask observed).coeff 0 = 1 := by
    rw [coeff_zero_eq_eval_zero]
    refine eval_maskPoly_zero _ fun h => h0 ?_
    obtain ⟨y, hy, hy0⟩ := Finset.mem_map.mp h
    rwa [show y = 0 from congrArg GF256.byte hy0] at hy
  have hmaskx : (indexMask observed).eval ⟨x⟩ = 0 :=
    eval_maskPoly_of_mem _ (Finset.mem_map.mpr ⟨x, hx, rfl⟩)
  have hdegree : (indexMask observed).degree ≤ (threshold - 1 : ℕ) := by
    refine (degree_maskPoly_le _).trans ?_
    rw [Finset.card_map]
    exact_mod_cast hcard
  refine List.ext_getElem? fun i => ?_
  rw [getElem?_shareValue, getElem?_shareValue]
  rcases lt_or_ge i len with hi | hi
  · obtain ⟨b, hb⟩ : ∃ b, secret[i]? = some b := ⟨_, List.getElem?_eq_getElem (by omega)⟩
    obtain ⟨b', hb'⟩ : ∃ b, secret'[i]? = some b := ⟨_, List.getElem?_eq_getElem (by omega)⟩
    rw [hb, hb', Option.map_some, Option.map_some]
    congr 1
    apply GF256.mk.inj
    rw [evaluatePolynomial_eq, evaluatePolynomial_eq, byteCoefficients, byteCoefficients,
      bytePoly_mask ((List.range (threshold - 1)).map fun j =>
        ω.stream (0 + i * (threshold - 1) + j)) (indexMask observed) (b := b),
      eval_add, eval_mul, hmaskx, mul_zero, add_zero]
    · simp
    · exact hmask0
    · simpa using hdegree
    · intro j hj
      rw [List.length_map, List.length_range] at hj
      have hk : i * (threshold - 1) + j < len * (threshold - 1) := block_lt hi hj
      have hdiv : (i * (threshold - 1) + j) / (threshold - 1) = i := by
        rw [Nat.mul_comm, Nat.mul_add_div (by omega), Nat.div_eq_of_lt hj, Nat.add_zero]
      have hmod : (i * (threshold - 1) + j) % (threshold - 1) = j := by
        rw [Nat.mul_comm, Nat.mul_add_mod, Nat.mod_eq_of_lt hj]
      have hmaskByte : maskByte observed threshold secret secret' (i * (threshold - 1) + j)
          = gfMul (gfAdd b b') ((indexMask observed).coeff (j + 1)).byte := by
        rw [maskByte, hdiv, hmod, hb, hb']
        rfl
      simp only [List.getElem?_map, List.getElem?_range hj, Option.map_some, Option.getD_some,
        zero_add, Draws.stream, dif_pos hk]
      rw [← hmaskByte]
      rfl
  · rw [List.getElem?_eq_none (by omega), List.getElem?_eq_none (by omega)]
    rfl

/-- The shares of a split with an index in `observed`. -/
def observedShares (observed : Finset UInt8) (shares : List Share) : List Share :=
  shares.filter fun s => s.index ∈ observed

/-- **Perfect secrecy**: fewer than `threshold` shares say nothing about the secret.  There is a
permutation of the drawn bytes that turns the observed shares of `secret` into those of `secret'`,
so every view of these shares comes from equally many draws for both. -/
theorem split_secrecy (threshold numShares len : ℕ) (ht : 1 ≤ threshold)
    (htn : threshold ≤ numShares) (hn : numShares ≤ 255) (secret secret' : List UInt8)
    (hlen : secret.length = len) (hlen' : secret'.length = len) (observed : Finset UInt8)
    (hobserved : ∀ x ∈ observed, ∃ i < numShares, x = UInt8.ofNat (i + 1))
    (hcard : observed.card ≤ threshold - 1) :
    (∃ e : Equiv.Perm (Draws len threshold), ∀ ω, ∃ shares shares',
      split ω.stream secret threshold numShares = .ok shares ∧
      split (e ω).stream secret' threshold numShares = .ok shares' ∧
      observedShares observed shares' = observedShares observed shares) ∧
    ∀ view : List Share,
      Nat.card {ω : Draws len threshold // ∃ shares,
        split ω.stream secret threshold numShares = .ok shares ∧
        observedShares observed shares = view}
      = Nat.card {ω : Draws len threshold // ∃ shares,
        split ω.stream secret' threshold numShares = .ok shares ∧
        observedShares observed shares = view} := by
  have h0 : 0 ∉ observed := by
    intro h
    obtain ⟨i, hi, hi0⟩ := hobserved 0 h
    have := congrArg UInt8.toNat hi0
    simp at this
    omega
  set e := maskDraws observed len threshold secret secret' with he
  have hview (ω : Draws len threshold) : ∃ shares shares',
      split ω.stream secret threshold numShares = .ok shares ∧
      split (e ω).stream secret' threshold numShares = .ok shares' ∧
      observedShares observed shares' = observedShares observed shares := by
    refine ⟨_, _, split_eq _ _ ht htn hn, split_eq _ _ ht htn hn, ?_⟩
    rw [observedShares, observedShares, List.filter_map, List.filter_map]
    refine List.map_congr_left fun i hi => ?_
    have hmem : UInt8.ofNat (i + 1) ∈ observed := by simpa using (List.mem_filter.mp hi).2
    rw [shareValue_maskDraws hlen hlen' h0 hcard ω hmem]
  refine ⟨⟨e, hview⟩, fun view => Nat.card_congr (e.subtypeEquiv fun ω => ?_)⟩
  obtain ⟨shares, shares', hs, hs', heq⟩ := hview ω
  constructor
  · rintro ⟨l, hl, rfl⟩
    exact ⟨shares', hs', by rw [heq, Outcome.ok.inj (hs.symm.trans hl)]⟩
  · rintro ⟨l, hl, rfl⟩
    exact ⟨shares, hs, by rw [← heq, Outcome.ok.inj (hs'.symm.trans hl)]⟩

theorem split_secrecy_one_of_two : ∃ e : Equiv.Perm (Draws 1 2), ∀ ω, ∃ shares shares',
    split ω.stream [0x00] 2 3 = .ok shares ∧ split (e ω).stream [0x2A] 2 3 = .ok shares' ∧
    observedShares {3} shares' = observedShares {3} shares :=
  (split_secrecy 2 3 1 (by decide) (by decide) (by decide) [0x00] [0x2A] rfl rfl {3}
    (fun _ hx => ⟨2, by decide, Finset.mem_singleton.mp hx⟩) (by decide)).1

end Ostrich.Kra
