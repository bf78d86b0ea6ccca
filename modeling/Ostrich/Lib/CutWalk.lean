import Mathlib.Data.Nat.Notation
import Mathlib.Data.List.Basic

/-!
# Bounded walks that stop at a place seen before

`walk next fuel seen current` goes from place to place with `next`, at most `fuel` times, writes
every place down, and stops at a dead end or at a place that is written down already.  Places are
compared by a `BEq` that is an equivalence (names up to case, say), so the graph is a relation that
does not tell equal places apart.

`mem_walk_iff`: if every place has at most one way on, the places written down are the ones that
can be reached by at most `fuel` steps.  `pairwise_walk` and `length_walk_le_of_loop`: no place is
written down twice, so a loop adds nothing.
-/

namespace Ostrich.CutWalk

variable {α : Type*} [BEq α]

/-- The places written down. -/
def walk (next : α → Option α) : (fuel : ℕ) → (seen : List α) → (current : α) → List α
  | 0, seen, _ => seen
  | fuel + 1, seen, current =>
    match next current with
    | some target =>
      if seen.contains target then seen else walk next fuel (seen ++ [target]) target
    | none => seen

/-- `c` is reached from `a` by `k` steps. -/
inductive Reaches (edge : α → α → Prop) : ℕ → α → α → Prop
  | here (a : α) : Reaches edge 0 a a
  | step {k : ℕ} {a b c : α} : edge a b → Reaches edge k b c → Reaches edge (k + 1) a c

/-- `next` takes the only way on, if there is one, and equal places have the same ways on. -/
structure Takes (next : α → Option α) (edge : α → α → Prop) : Prop where
  sound : ∀ {a b}, next a = some b → edge a b
  stuck : ∀ {a b}, next a = none → ¬ edge a b
  congr : ∀ {a a' b}, edge a b → a == a' → edge a' b
  only : ∀ {a b b'}, edge a b → edge a b' → b == b'

variable [EquivBEq α] {next : α → Option α} {edge : α → α → Prop}

/-! ### Reaching -/

omit [BEq α] [EquivBEq α] in
theorem Reaches.snoc {k : ℕ} {a b c : α} (h : Reaches edge k a b) (hstep : edge b c) :
    Reaches edge (k + 1) a c := by
  induction h with
  | here a => exact .step hstep (.here c)
  | step hfirst _ ih => exact .step hfirst (ih hstep)

/-- Equal places reach equal places. -/
theorem Reaches.congr (hnext : Takes next edge) {k : ℕ} {a a' c : α} (h : Reaches edge k a c)
    (ha : a == a') : ∃ c', Reaches edge k a' c' ∧ c == c' := by
  cases h with
  | here => exact ⟨a', .here a', ha⟩
  | step hfirst hrest => exact ⟨c, .step (hnext.congr hfirst ha) hrest, BEq.rfl⟩

/-- After `k` steps there is one place to be. -/
theorem Reaches.only (hnext : Takes next edge) {k : ℕ} {a c : α} (h : Reaches edge k a c) :
    ∀ {c'}, Reaches edge k a c' → c == c' := by
  induction h with
  | here a =>
    intro c' h'
    cases h' with
    | here => exact BEq.rfl
  | @step k a b c hfirst _ ih =>
    intro c' h'
    cases h' with
    | @step _ _ b' _ hfirst' hrest' =>
      have hb : b' == b := hnext.only hfirst' hfirst
      obtain ⟨c'', hc'', heq⟩ := hrest'.congr hnext hb
      exact BEq.trans (ih hc'') (BEq.symm heq)

/-- What leads nowhere else is all that can be reached from it. -/
theorem Reaches.closed {seen : List α}
    (hclosed : ∀ o ∈ seen, ∀ b, edge o b → ∃ s ∈ seen, s == b) (hnext : Takes next edge) {k : ℕ}
    {a c : α} (h : Reaches edge k a c) (ha : ∃ s ∈ seen, s == a) : ∃ s ∈ seen, s == c := by
  induction h with
  | here => exact ha
  | step hfirst _ ih =>
    obtain ⟨s, hs, heq⟩ := ha
    exact ih (hclosed s hs _ (hnext.congr hfirst (BEq.symm heq)))

/-! ### The walk -/

theorem contains_iff_exists {seen : List α} {a : α} :
    seen.contains a = true ↔ ∃ s ∈ seen, s == a := by
  rw [List.contains_iff_exists_mem_beq]
  constructor
  · rintro ⟨s, hs, h⟩
    exact ⟨s, hs, BEq.symm h⟩
  · rintro ⟨s, hs, h⟩
    exact ⟨s, hs, BEq.symm h⟩

omit [EquivBEq α] in
/-- The place written down after `k` others is reached by `k` steps, and there are not more of them
than steps were allowed. -/
theorem getElem?_walk (hnext : Takes next edge) {q : α} :
    ∀ (fuel : ℕ) (seen : List α) (current : α),
      (∀ k o, seen[k]? = some o → Reaches edge k q o) →
      Reaches edge (seen.length - 1) q current → seen ≠ [] →
      (walk next fuel seen current).length ≤ seen.length + fuel ∧
        ∀ k o, (walk next fuel seen current)[k]? = some o → Reaches edge k q o := by
  intro fuel
  induction fuel with
  | zero => exact fun seen current hseen _ _ => ⟨by simp [walk], hseen⟩
  | succ fuel ih =>
    intro seen current hseen hcurrent hne
    unfold walk
    cases htarget : next current with
    | none => exact ⟨by simp only; omega, hseen⟩
    | some target =>
      simp only
      by_cases hcut : seen.contains target = true
      · rw [if_pos hcut]
        exact ⟨by omega, hseen⟩
      · rw [if_neg hcut]
        have hpos : 0 < seen.length := List.length_pos_iff.2 hne
        have hreach : Reaches edge seen.length q target := by
          have h := hcurrent.snoc (hnext.sound htarget)
          rwa [Nat.sub_add_cancel hpos] at h
        have hrest := ih (seen ++ [target]) target ?_ (by simpa using hreach) (by simp)
        · refine ⟨?_, hrest.2⟩
          have hlength := hrest.1
          rw [List.length_append, List.length_singleton] at hlength
          omega
        · intro k o hk
          rcases Nat.lt_trichotomy k seen.length with hlt | heq | hgt
          · rw [List.getElem?_append_left hlt] at hk
            exact hseen k o hk
          · subst heq
            rw [List.getElem?_concat_length] at hk
            cases hk
            exact hreach
          · rw [List.getElem?_eq_none (by rw [List.length_append, List.length_singleton]; omega)]
              at hk
            cases hk

/-- No place is written down twice. -/
theorem pairwise_walk : ∀ (fuel : ℕ) (seen : List α) (current : α),
    seen.Pairwise (fun a b => ¬ a == b) →
      (walk next fuel seen current).Pairwise (fun a b => ¬ a == b) := by
  intro fuel
  induction fuel with
  | zero => exact fun seen current hseen => hseen
  | succ fuel ih =>
    intro seen current hseen
    unfold walk
    cases next current with
    | none => exact hseen
    | some target =>
      simp only
      by_cases hcut : seen.contains target = true
      · rw [if_pos hcut]
        exact hseen
      · rw [if_neg hcut]
        apply ih
        rw [List.pairwise_append]
        refine ⟨hseen, List.pairwise_singleton _ _, ?_⟩
        intro s hs t ht heq
        rw [List.mem_singleton.1 ht] at heq
        exact hcut (contains_iff_exists.2 ⟨s, hs, heq⟩)

omit [EquivBEq α] in
/-- What is written down stays. -/
theorem mem_walk_of_mem {a : α} : ∀ (fuel : ℕ) (seen : List α) (current : α), a ∈ seen →
    a ∈ walk next fuel seen current := by
  intro fuel
  induction fuel with
  | zero => exact fun seen current ha => ha
  | succ fuel ih =>
    intro seen current ha
    unfold walk
    cases next current with
    | none => exact ha
    | some target =>
      simp only
      by_cases hcut : seen.contains target = true
      · rwa [if_pos hcut]
      · rw [if_neg hcut]
        exact ih _ _ (List.mem_append_left _ ha)

/-- The walk finds every place that is reached from the current one by at most `fuel` steps, if the
places seen lead only to places seen, the current one excepted. -/
theorem exists_mem_walk (hnext : Takes next edge) :
    ∀ (fuel : ℕ) (seen : List α) (current : α), current ∈ seen →
      (∀ o ∈ seen, ∀ b, edge o b → o == current ∨ ∃ s ∈ seen, s == b) →
      ∀ {k c}, k ≤ fuel → Reaches edge k current c → ∃ o ∈ walk next fuel seen current, o == c := by
  intro fuel
  induction fuel with
  | zero =>
    intro seen current hmem _ k c hk hreach
    cases hreach with
    | here => exact ⟨_, hmem, BEq.rfl⟩
    | step => omega
  | succ fuel ih =>
    intro seen current hmem hclosed k c hk hreach
    unfold walk
    cases htarget : next current with
    | none =>
      cases hreach with
      | here => exact ⟨_, hmem, BEq.rfl⟩
      | step hfirst _ => exact absurd hfirst (hnext.stuck htarget)
    | some target =>
      have hedge : edge current target := hnext.sound htarget
      -- what the current place leads to is the target
      have honly : ∀ o b, o == current → edge o b → target == b := fun o b ho hob =>
        hnext.only hedge (hnext.congr hob ho)
      simp only
      by_cases hcut : seen.contains target = true
      · rw [if_pos hcut]
        obtain ⟨t, ht, htt⟩ := contains_iff_exists.1 hcut
        refine hreach.closed ?_ hnext ⟨current, hmem, BEq.rfl⟩
        intro o ho b hob
        by_cases hcur : o == current
        · exact ⟨t, ht, BEq.trans htt (honly o b hcur hob)⟩
        · exact (hclosed o ho b hob).resolve_left hcur
      · rw [if_neg hcut]
        have hstart : target ∈ seen ++ [target] := by simp
        have hclosed' : ∀ o ∈ seen ++ [target], ∀ b, edge o b →
            o == target ∨ ∃ s ∈ seen ++ [target], s == b := by
          intro o ho b hob
          rcases List.mem_append.1 ho with ho | ho
          · right
            by_cases hcur : o == current
            · exact ⟨target, hstart, honly o b hcur hob⟩
            · obtain ⟨s, hs, heq⟩ := (hclosed o ho b hob).resolve_left hcur
              exact ⟨s, List.mem_append_left _ hs, heq⟩
          · rw [List.mem_singleton.1 ho]
            exact Or.inl BEq.rfl
        cases hreach with
        | here =>
          exact ⟨_, mem_walk_of_mem _ _ _ (List.mem_append_left _ hmem), BEq.rfl⟩
        | step hfirst hrest =>
          have hb := honly _ _ BEq.rfl hfirst
          obtain ⟨c', hreach', heq⟩ := hrest.congr hnext (BEq.symm hb)
          obtain ⟨o, ho, hoc⟩ := ih _ _ hstart hclosed' (by omega) hreach'
          exact ⟨o, ho, BEq.trans hoc (BEq.symm heq)⟩

/-! ### From one place on -/

omit [EquivBEq α] in
/-- The places written down from `q` on are the ones that are reached, one for each number of
steps. -/
theorem getElem?_walk_start (hnext : Takes next edge) (fuel : ℕ) (q : α) :
    (walk next fuel [q] q).length ≤ fuel + 1 ∧
      ∀ k o, (walk next fuel [q] q)[k]? = some o → Reaches edge k q o := by
  have h := getElem?_walk hnext (q := q) fuel [q] q ?_ (.here q) (by simp)
  · refine ⟨?_, h.2⟩
    have hlength := h.1
    rw [List.length_singleton] at hlength
    omega
  · intro k o hk
    cases k with
    | zero =>
      cases hk
      exact .here q
    | succ k => simp at hk

/-- **The places written down are the ones that can be reached by at most `fuel` steps.** -/
theorem mem_walk_iff (hnext : Takes next edge) (fuel : ℕ) (q b : α) :
    (∃ o ∈ walk next fuel [q] q, o == b) ↔ ∃ k ≤ fuel, ∃ c, Reaches edge k q c ∧ c == b := by
  constructor
  · rintro ⟨o, ho, hob⟩
    obtain ⟨hlength, hreach⟩ := getElem?_walk_start hnext fuel q
    obtain ⟨k, hk⟩ := List.mem_iff_getElem?.1 ho
    have hlt : k < (walk next fuel [q] q).length := (List.getElem?_eq_some_iff.1 hk).1
    exact ⟨k, by omega, o, hreach k o hk, hob⟩
  · rintro ⟨k, hk, c, hreach, hcb⟩
    have hclosed : ∀ o ∈ [q], ∀ b, edge o b → o == q ∨ ∃ s ∈ [q], s == b := by
      intro o ho b _
      rw [List.mem_singleton.1 ho]
      exact Or.inl BEq.rfl
    obtain ⟨o, ho, hoc⟩ := exists_mem_walk hnext fuel [q] q (by simp) hclosed hk hreach
    exact ⟨o, ho, BEq.trans hoc hcb⟩

/-- A loop adds nothing: if `j` steps lead back to a place of fewer steps, at most `j` places are
written down. -/
theorem length_walk_le_of_loop (hnext : Takes next edge) (fuel : ℕ) {q a b : α} {i j : ℕ}
    (hij : i < j) (ha : Reaches edge i q a) (hb : Reaches edge j q b) (hab : a == b) :
    (walk next fuel [q] q).length ≤ j := by
  by_contra hlong
  obtain ⟨-, hreach⟩ := getElem?_walk_start hnext fuel q
  have hj : j < (walk next fuel [q] q).length := by omega
  have hi : i < (walk next fuel [q] q).length := by omega
  have hpairwise : (walk next fuel [q] q).Pairwise fun a b => ¬ a == b :=
    pairwise_walk fuel [q] q (List.pairwise_singleton _ _)
  have hdistinct := List.pairwise_iff_getElem.1 hpairwise i j hi hj hij
  have hia := (hreach i _ (List.getElem?_eq_getElem hi)).only hnext ha
  have hjb := (hreach j _ (List.getElem?_eq_getElem hj)).only hnext hb
  exact hdistinct (BEq.trans hia (BEq.trans hab (BEq.symm hjb)))

end Ostrich.CutWalk
