import Ostrich.Kra.Equiv.Shamir

/-!
# Rebuilding a secret from malformed shares

`reconstruct` looks at the first `threshold` shares.  It checks that there are as many and that
their values have one length, but neither that `threshold` is positive nor that the indices are
distinct.

* `lagrangeInterpolate_of_nodup`, `lagrangeInterpolate_of_not_nodup`: interpolation gives a value
  for distinct x-coordinates and panics for any others;
* `robust_iff`: `reconstruct` returns, with an error for malformed shares, exactly when these two
  checks would pass.
-/

namespace Ostrich.Kra

/-! ### Interpolation -/

/-- The denominator of a basis polynomial: zero if its x-coordinate is that of another point. -/
theorem denominator_eq_zero_iff (points : List (UInt8 × UInt8)) (i : Fin points.length) :
    ∏ j ∈ Finset.univ.erase i, ((⟨(points.get i).1⟩ : GF256) - ⟨(points.get j).1⟩) = 0 ↔
      ∃ j, j ≠ i ∧ (points.get i).1 = (points.get j).1 := by
  rw [Finset.prod_eq_zero_iff]
  constructor
  · rintro ⟨j, hj, hzero⟩
    exact ⟨j, Finset.ne_of_mem_erase hj, congrArg GF256.byte (sub_eq_zero.mp hzero)⟩
  · rintro ⟨j, hne, heq⟩
    exact ⟨j, Finset.mem_erase.mpr ⟨hne, Finset.mem_univ j⟩, by rw [heq, sub_self]⟩

/-- One step of the interpolation. -/
theorem lagrangeStep (points : List (UInt8 × UInt8)) (x result : UInt8) (i : Fin points.length) :
    (do
      let fraction := lagrangeFraction points x i (points.get i).1
      let lagrangeBasis ← gfDiv fraction.1 fraction.2
      let term := gfMul (points.get i).2 lagrangeBasis
      return gfAdd result term) =
    if ∃ j, j ≠ i ∧ (points.get i).1 = (points.get j).1 then (.panic : Outcome Error UInt8)
    else .ok (gfAdd result (gfMul (points.get i).2
      ((∏ j ∈ Finset.univ.erase i, ((⟨x⟩ : GF256) - ⟨(points.get j).1⟩)) /
        ∏ j ∈ Finset.univ.erase i, ((⟨(points.get i).1⟩ : GF256) - ⟨(points.get j).1⟩)).byte)) := by
  dsimp only
  rw [lagrangeFraction_eq, gfDiv_eq]
  by_cases h : ∃ j, j ≠ i ∧ (points.get i).1 = (points.get j).1
  · rw [if_pos h, if_pos ((denominator_eq_zero_iff points i).mpr h)]
    rfl
  · rw [if_neg h, if_neg (mt (denominator_eq_zero_iff points i).mp h)]
    rfl

/-- The x-coordinates of some points are distinct if no two points share one. -/
theorem nodup_map_fst_iff (points : List (UInt8 × UInt8)) :
    (points.map Prod.fst).Nodup ↔
      ¬∃ i j : Fin points.length, j ≠ i ∧ (points.get i).1 = (points.get j).1 := by
  rw [List.Nodup, List.pairwise_map, List.pairwise_iff_get]
  constructor
  · rintro h ⟨i, j, hne, heq⟩
    rcases lt_or_gt_of_ne hne with hlt | hlt
    · exact h j i hlt heq.symm
    · exact h i j hlt heq
  · intro h i j hlt heq
    exact h ⟨i, j, ne_of_gt hlt, heq⟩

/-- A point and its place, as `zipIdx` lists them. -/
theorem mem_zipIdx_iff (points : List (UInt8 × UInt8)) (p : (UInt8 × UInt8) × ℕ) :
    p ∈ points.zipIdx ↔ ∃ i : Fin points.length, (points.get i, i.val) = p := by
  rw [zipIdx_eq_ofFn]
  exact List.mem_ofFn

theorem lagrangeInterpolate_of_nodup {points : List (UInt8 × UInt8)} (x : UInt8)
    (hnodup : (points.map Prod.fst).Nodup) : ∃ y, lagrangeInterpolate points x = .ok y := by
  rw [nodup_map_fst_iff] at hnodup
  apply Outcome.exists_foldlM_ok
  intro result p hp
  obtain ⟨i, rfl⟩ := (mem_zipIdx_iff points p).mp hp
  have hstep := lagrangeStep points x result i
  rw [if_neg fun h => hnodup ⟨i, h⟩] at hstep
  exact ⟨_, hstep⟩

theorem lagrangeInterpolate_of_not_nodup {points : List (UInt8 × UInt8)} (x : UInt8)
    (hnodup : ¬(points.map Prod.fst).Nodup) : lagrangeInterpolate points x = .panic := by
  rw [nodup_map_fst_iff, not_not] at hnodup
  obtain ⟨i, hi⟩ := hnodup
  apply Outcome.foldlM_panic
  · intro result p hp
    obtain ⟨k, rfl⟩ := (mem_zipIdx_iff points p).mp hp
    have hstep := lagrangeStep points x result k
    by_cases h : ∃ j, j ≠ k ∧ (points.get k).1 = (points.get j).1
    · left
      rwa [if_pos h] at hstep
    · right
      rw [if_neg h] at hstep
      exact ⟨_, hstep⟩
  · refine ⟨(points.get i, i.val), (mem_zipIdx_iff points _).mpr ⟨i, rfl⟩, fun result => ?_⟩
    have hstep := lagrangeStep points x result i
    rwa [if_pos hi] at hstep

/-! ### Rebuilding -/

/-- The values of some shares have one length. -/
def LengthsAgree (shares : List Share) : Prop :=
  ∀ s ∈ shares, ∀ s' ∈ shares, s.value.length = s'.value.length

theorem sharePoints_of_lengths {shares : List Share} {len i : ℕ}
    (hlen : ∀ s ∈ shares, s.value.length = len) (hi : i < len) :
    ∃ points, sharePoints shares i = .ok points ∧ points.map Prod.fst = shares.map Share.index := by
  refine ⟨shares.map fun s => (s.index, (s.value[i]?).getD 0), ?_, ?_⟩
  · refine Outcome.mapM_ok shares fun s hs => ?_
    have hget : s.value[i]? = some ((s.value[i]?).getD 0) := by
      have hlt : i < s.value.length := by rw [hlen s hs]; exact hi
      rw [List.getElem?_eq_getElem hlt, Option.getD_some]
    rw [indexOrPanic_of_getElem? hget]
    rfl
  · rw [List.map_map]
    rfl

/-- `reconstruct` when there are enough shares. -/
theorem reconstruct_of_enough {shares : List Share} {threshold : ℕ}
    (henough : threshold ≤ shares.length) {first : Share} {rest : List Share}
    (huse : shares.take threshold = first :: rest) :
    reconstruct shares threshold =
      if (first :: rest).all fun s => s.value.length = first.value.length then
        (List.range first.value.length).mapM fun byteIdx => do
          let points ← sharePoints (first :: rest) byteIdx
          lagrangeInterpolate points 0
      else .err .InvalidShare := by
  rw [reconstruct, if_neg (by omega)]
  dsimp only
  rw [huse, indexOrPanic_of_getElem? (a := first) rfl, Outcome.ok_bind]
  by_cases h : (first :: rest).all fun s => s.value.length = first.value.length
  · rw [if_pos h, h]
    rfl
  · rw [if_neg h]
    rw [Bool.not_eq_true] at h
    rw [h]
    rfl

theorem reconstruct_of_few {shares : List Share} {threshold : ℕ}
    (h : shares.length < threshold) :
    reconstruct shares threshold = .err (.InsufficientShares threshold shares.length) := by
  rw [reconstruct, if_pos h]

/-- Threshold `0` reads the first of no shares. -/
theorem reconstruct_zero (shares : List Share) : reconstruct shares 0 = .panic := by
  rw [reconstruct, if_neg (by omega)]
  rfl

theorem exists_take_eq_cons {shares : List Share} {threshold : ℕ} (ht : threshold ≠ 0)
    (henough : threshold ≤ shares.length) :
    ∃ first rest, shares.take threshold = first :: rest := by
  apply List.exists_cons_of_ne_nil
  intro h
  have hlen := congrArg List.length h
  rw [List.length_take, List.length_nil] at hlen
  omega

theorem reconstruct_of_not_agree {shares : List Share} {threshold : ℕ} (ht : threshold ≠ 0)
    (henough : threshold ≤ shares.length) (h : ¬LengthsAgree (shares.take threshold)) :
    reconstruct shares threshold = .err .InvalidShare := by
  obtain ⟨first, rest, huse⟩ := exists_take_eq_cons ht henough
  rw [huse] at h
  rw [reconstruct_of_enough henough huse, if_neg]
  rw [List.all_eq_true]
  intro hall
  apply h
  intro s hs s' hs'
  have h1 := of_decide_eq_true (hall s hs)
  have h2 := of_decide_eq_true (hall s' hs')
  omega

/-- Shares of one length with distinct indices give a value. -/
theorem reconstruct_of_agree {shares : List Share} {threshold : ℕ} (ht : threshold ≠ 0)
    (henough : threshold ≤ shares.length) (h : LengthsAgree (shares.take threshold))
    (hnodup : ((shares.take threshold).map Share.index).Nodup) :
    ∃ secret, reconstruct shares threshold = .ok secret := by
  obtain ⟨first, rest, huse⟩ := exists_take_eq_cons ht henough
  rw [huse] at h hnodup
  have hlen : ∀ s ∈ first :: rest, s.value.length = first.value.length :=
    fun s hs => h s hs first List.mem_cons_self
  rw [reconstruct_of_enough henough huse, if_pos]
  · apply Outcome.exists_mapM_ok
    intro byteIdx hbyte
    obtain ⟨points, hpoints, hindex⟩ := sharePoints_of_lengths hlen (List.mem_range.mp hbyte)
    rw [hpoints, Outcome.ok_bind]
    apply lagrangeInterpolate_of_nodup
    rwa [hindex]
  · rw [List.all_eq_true]
    intro s hs
    exact decide_eq_true (hlen s hs)

/-- With a repeated index, either the first byte divides by zero or there are no bytes and the
result is the empty secret. -/
theorem reconstruct_of_not_nodup {shares : List Share} {threshold : ℕ} (ht : threshold ≠ 0)
    (henough : threshold ≤ shares.length) (h : LengthsAgree (shares.take threshold))
    (hnodup : ¬((shares.take threshold).map Share.index).Nodup) :
    reconstruct shares threshold = .panic ∨ reconstruct shares threshold = .ok [] := by
  obtain ⟨first, rest, huse⟩ := exists_take_eq_cons ht henough
  rw [huse] at h hnodup
  have hlen : ∀ s ∈ first :: rest, s.value.length = first.value.length :=
    fun s hs => h s hs first List.mem_cons_self
  rw [reconstruct_of_enough henough huse, if_pos]
  · rcases Nat.eq_zero_or_pos first.value.length with hzero | hpos
    · right
      rw [hzero]
      rfl
    · left
      obtain ⟨n, hn⟩ := Nat.exists_eq_add_of_lt hpos
      obtain ⟨points, hpoints, hindex⟩ := sharePoints_of_lengths hlen hpos
      rw [hn, Nat.zero_add, List.range_succ_eq_map, List.mapM_cons, hpoints, Outcome.ok_bind,
        lagrangeInterpolate_of_not_nodup 0 (by rwa [hindex]), Outcome.panic_bind]
  · rw [List.all_eq_true]
    intro s hs
    exact decide_eq_true (hlen s hs)

/-! ### Robustness -/

/-- The input calls for an error.  `checked` are the shares whose lengths are compared. -/
def Malformed (checked shares : List Share) (threshold : ℕ) : Prop :=
  threshold = 0 ∨ shares.length < threshold ∨ ¬LengthsAgree checked ∨
    ¬((shares.take threshold).map Share.index).Nodup

/-- `reconstruct` returns a secret or an error, and an error for malformed input. -/
def Robust (checked shares : List Share) (threshold : ℕ) : Prop :=
  ((∃ secret, reconstruct shares threshold = .ok secret) ∨
    ∃ e, reconstruct shares threshold = .err e) ∧
  (Malformed checked shares threshold → ∃ e, reconstruct shares threshold = .err e)

theorem robust_of_err {checked shares : List Share} {threshold : ℕ} {e : Error}
    (h : reconstruct shares threshold = .err e) : Robust checked shares threshold :=
  ⟨.inr ⟨e, h⟩, fun _ => ⟨e, h⟩⟩

/-- Where a value comes out, the input must not be malformed. -/
theorem robust_iff_of_ok {checked shares : List Share} {threshold : ℕ} {secret : List UInt8}
    (h : reconstruct shares threshold = .ok secret) :
    Robust checked shares threshold ↔ ¬Malformed checked shares threshold := by
  constructor
  · rintro ⟨-, hrobust⟩ hmal
    obtain ⟨e, he⟩ := hrobust hmal
    rw [h] at he
    cases he
  · exact fun hmal => ⟨.inl ⟨secret, h⟩, fun h' => absurd h' hmal⟩

theorem not_robust_of_panic {checked shares : List Share} {threshold : ℕ}
    (h : reconstruct shares threshold = .panic) : ¬Robust checked shares threshold := by
  rintro ⟨⟨secret, hok⟩ | ⟨e, herr⟩, -⟩
  · rw [h] at hok
    cases hok
  · rw [h] at herr
    cases herr

/-- The condition for a family of checked shares that contains those in use. -/
theorem robust_checked_iff {checked shares : List Share} {threshold : ℕ}
    (hsub : ∀ s ∈ shares.take threshold, s ∈ checked) :
    Robust checked shares threshold ↔
      threshold ≠ 0 ∧ (threshold ≤ shares.length → LengthsAgree (shares.take threshold) →
        LengthsAgree checked ∧ ((shares.take threshold).map Share.index).Nodup) := by
  by_cases ht : threshold = 0
  · subst ht
    have hpanic := @not_robust_of_panic checked _ _ (reconstruct_zero shares)
    exact ⟨fun h => absurd h hpanic, fun h => absurd rfl h.1⟩
  rcases Nat.lt_or_ge shares.length threshold with hfew | henough
  · have hrobust := @robust_of_err checked _ _ _ (reconstruct_of_few hfew)
    exact ⟨fun _ => ⟨ht, fun h => absurd h (by omega)⟩, fun _ => hrobust⟩
  by_cases hagree : LengthsAgree (shares.take threshold)
  · have hmal : ¬Malformed checked shares threshold ↔
        LengthsAgree checked ∧ ((shares.take threshold).map Share.index).Nodup := by
      unfold Malformed
      constructor
      · intro h
        push Not at h
        exact ⟨h.2.2.1, h.2.2.2⟩
      · rintro ⟨hlen, hnodup⟩ (h | h | h | h)
        · exact ht h
        · omega
        · exact h hlen
        · exact h hnodup
    by_cases hnodup : ((shares.take threshold).map Share.index).Nodup
    · obtain ⟨secret, hok⟩ := reconstruct_of_agree ht henough hagree hnodup
      rw [robust_iff_of_ok hok, hmal]
      exact ⟨fun h => ⟨ht, fun _ _ => h⟩, fun h => h.2 henough hagree⟩
    · have hnot : ¬Robust checked shares threshold := by
        rcases reconstruct_of_not_nodup ht henough hagree hnodup with hpanic | hok
        · exact not_robust_of_panic hpanic
        · rw [robust_iff_of_ok hok, hmal]
          exact fun h => hnodup h.2
      exact ⟨fun h => absurd h hnot, fun h => absurd (h.2 henough hagree).2 hnodup⟩
  · have hrobust := @robust_of_err checked _ _ _
      (reconstruct_of_not_agree ht henough hagree)
    exact ⟨fun _ => ⟨ht, fun _ h => absurd h hagree⟩, fun _ => hrobust⟩

/-- **`reconstruct` returns, with an error for malformed shares, exactly when the two checks it
lacks would pass**: the threshold is not `0`, and enough shares of one length have distinct
indices.  When the lengths of all given shares count, those that are not in use must agree too. -/
theorem robust_iff (shares : List Share) (threshold : ℕ) :
    (Robust (shares.take threshold) shares threshold ↔
      threshold ≠ 0 ∧ (threshold ≤ shares.length → LengthsAgree (shares.take threshold) →
        ((shares.take threshold).map Share.index).Nodup)) ∧
    (Robust shares shares threshold ↔
      threshold ≠ 0 ∧ (threshold ≤ shares.length → LengthsAgree (shares.take threshold) →
        LengthsAgree shares ∧ ((shares.take threshold).map Share.index).Nodup)) := by
  constructor
  · rw [robust_checked_iff fun s hs => hs]
    constructor
    · exact fun h => ⟨h.1, fun henough hagree => (h.2 henough hagree).2⟩
    · exact fun h => ⟨h.1, fun henough hagree => ⟨hagree, h.2 henough hagree⟩⟩
  · exact robust_checked_iff fun s hs => List.mem_of_mem_take hs

/-- A repeated index aborts, and so does threshold `0`; two empty shares with one index give the
empty secret. -/
theorem repeated_index_not_robust :
    ¬Robust [⟨1, [5]⟩, ⟨1, [5]⟩] [⟨1, [5]⟩, ⟨1, [5]⟩] 2 ∧ ¬Robust [⟨1, [5]⟩] [⟨1, [5]⟩] 0 ∧
    ¬Robust [⟨1, []⟩, ⟨1, []⟩] [⟨1, []⟩, ⟨1, []⟩] 2 := by
  refine ⟨not_robust_of_panic (by decide +kernel), not_robust_of_panic (by decide +kernel), ?_⟩
  have hok : reconstruct [⟨1, []⟩, ⟨1, []⟩] 2 = .ok [] := by decide +kernel
  rw [robust_iff_of_ok hok, not_not]
  right; right; right
  decide

end Ostrich.Kra
