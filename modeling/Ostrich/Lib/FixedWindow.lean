import Mathlib.Data.List.Basic
import Mathlib.Data.Nat.Notation

/-!
# Fixed-window limiters

A limiter admits at most `max` events of a window, and begins a new window with the first tick that
comes at least `window` after the beginning of the last one.  `admitted` lists the instants of the
events it admits.

`inside_admitted_le`: at most `2 * max` of them lie in an interval of length `window`, since such an
interval meets at most two windows.  The ends count: an event of a window comes less than `window`
after its beginning, so it is farther than `window` from the window after the next one.
-/

namespace Ostrich.FixedWindow

/-- The instants of the events that are admitted.  A tick is an instant, with whether an event comes
with it; `start` is the beginning of the window, and `used` the number admitted in it. -/
def admitted (max window : ℕ) : (start used : ℕ) → List (ℕ × Bool) → List ℕ
  | _, _, [] => []
  | start, used, (now, event) :: rest =>
    if window ≤ now - start then
      if event ∧ 0 < max then now :: admitted max window now 1 rest
      else admitted max window now 0 rest
    else if event ∧ used < max then now :: admitted max window start (used + 1) rest
    else admitted max window start used rest

/-- The events in an interval. -/
def inside (low high : ℕ) (l : List ℕ) : ℕ := l.countP fun a => low ≤ a ∧ a ≤ high

theorem inside_cons (low high a : ℕ) (l : List ℕ) :
    inside low high (a :: l) = inside low high l + if low ≤ a ∧ a ≤ high then 1 else 0 := by
  unfold inside
  rw [List.countP_cons]
  simp only [decide_eq_true_eq]

theorem inside_cons_le (low high a : ℕ) (l : List ℕ) :
    inside low high (a :: l) ≤ inside low high l + 1 := by
  rw [inside_cons]
  split_ifs <;> omega

variable {max window : ℕ}

/-- Instants do not decrease. -/
def Ordered (ticks : List (ℕ × Bool)) : Prop := ticks.Pairwise fun a b => a.1 ≤ b.1

theorem le_of_mem_admitted : ∀ {ticks : List (ℕ × Bool)} {start used a : ℕ},
    a ∈ admitted max window start used ticks → ∃ tick ∈ ticks, tick.1 = a
  | (now, event) :: rest, start, used, a, h => by
    rw [admitted] at h
    have hrest : ∀ start used, a ∈ admitted max window start used rest →
        ∃ tick ∈ (now, event) :: rest, tick.1 = a := fun start used hmem => by
      obtain ⟨tick, htick, heq⟩ := le_of_mem_admitted hmem
      exact ⟨tick, List.mem_cons_of_mem _ htick, heq⟩
    split_ifs at h
    · rcases List.mem_cons.1 h with rfl | h
      · exact ⟨(a, event), by simp, rfl⟩
      · exact hrest _ _ h
    · exact hrest _ _ h
    · rcases List.mem_cons.1 h with rfl | h
      · exact ⟨(a, event), by simp, rfl⟩
      · exact hrest _ _ h
    · exact hrest _ _ h

/-- Nothing is admitted before the first tick. -/
theorem inside_eq_zero {ticks : List (ℕ × Bool)} {start used low high now : ℕ}
    (hticks : ∀ tick ∈ ticks, now ≤ tick.1) (hhigh : high < now) :
    inside low high (admitted max window start used ticks) = 0 := by
  unfold inside
  rw [List.countP_eq_zero]
  intro a ha
  obtain ⟨tick, htick, rfl⟩ := le_of_mem_admitted ha
  have := hticks tick htick
  simp only [decide_eq_true_eq, not_and, Nat.not_le]
  omega

/-- An interval that ends in the window holds no more than the window may still admit. -/
theorem inside_le_of_lt_start : ∀ {ticks : List (ℕ × Bool)} {start used low high : ℕ},
    Ordered ticks → 0 < window → high < start + window →
      inside low high (admitted max window start used ticks) ≤ max - used
  | [], _, _, _, _, _, _, _ => Nat.zero_le _
  | (now, event) :: rest, start, used, low, high, hordered, hwindow, hhigh => by
    obtain ⟨hfirst, hrest⟩ := List.pairwise_cons.1 hordered
    rw [admitted]
    by_cases hroll : window ≤ now - start
    · have hzero : ∀ used, inside low high (admitted max window now used rest) = 0 := fun used =>
        inside_eq_zero (fun tick htick => hfirst tick htick) (by omega)
      rw [if_pos hroll]
      split_ifs
      · rw [inside_cons, hzero, if_neg (by omega)]
        exact Nat.zero_le _
      · rw [hzero]
        exact Nat.zero_le _
    · rw [if_neg hroll]
      by_cases hevent : event ∧ used < max
      · rw [if_pos hevent]
        have ih : inside low high (admitted max window start (used + 1) rest) ≤ max - (used + 1) :=
          inside_le_of_lt_start hrest hwindow hhigh
        have hcons := inside_cons_le low high now (admitted max window start (used + 1) rest)
        omega
      · rw [if_neg hevent]
        exact inside_le_of_lt_start hrest hwindow hhigh

/-- One that ends in the window after it holds at most `max` more. -/
theorem inside_le_of_lt_next : ∀ {ticks : List (ℕ × Bool)} {start used low high : ℕ},
    Ordered ticks → 0 < window → high < start + 2 * window →
      inside low high (admitted max window start used ticks) ≤ max - used + max
  | [], _, _, _, _, _, _, _ => Nat.zero_le _
  | (now, event) :: rest, start, used, low, high, hordered, hwindow, hhigh => by
    obtain ⟨-, hrest⟩ := List.pairwise_cons.1 hordered
    rw [admitted]
    by_cases hroll : window ≤ now - start
    · have hend : high < now + window := by omega
      rw [if_pos hroll]
      by_cases hevent : event ∧ 0 < max
      · rw [if_pos hevent]
        have hlater : inside low high (admitted max window now 1 rest) ≤ max - 1 :=
          inside_le_of_lt_start hrest hwindow hend
        have hcons := inside_cons_le low high now (admitted max window now 1 rest)
        omega
      · rw [if_neg hevent]
        have hlater : inside low high (admitted max window now 0 rest) ≤ max - 0 :=
          inside_le_of_lt_start hrest hwindow hend
        omega
    · rw [if_neg hroll]
      by_cases hevent : event ∧ used < max
      · rw [if_pos hevent]
        have ih : inside low high (admitted max window start (used + 1) rest)
            ≤ max - (used + 1) + max := inside_le_of_lt_next hrest hwindow hhigh
        have hcons := inside_cons_le low high now (admitted max window start (used + 1) rest)
        omega
      · rw [if_neg hevent]
        exact inside_le_of_lt_next hrest hwindow hhigh

/-- **An interval of length `window` holds at most `2 * max` admitted events.** -/
theorem inside_admitted_le : ∀ {ticks : List (ℕ × Bool)} {start used low : ℕ},
    Ordered ticks → 0 < window →
      inside low (low + window) (admitted max window start used ticks) ≤ 2 * max
  | [], _, _, _, _, _ => Nat.zero_le _
  | (now, event) :: rest, start, used, low, hordered, hwindow => by
    obtain ⟨-, hrest⟩ := List.pairwise_cons.1 hordered
    -- an interval that begins in the window ends before the one after the next
    by_cases hlow : low < start + window
    · have hnext : inside low (low + window)
          (admitted max window start used ((now, event) :: rest)) ≤ max - used + max :=
        inside_le_of_lt_next hordered hwindow (by omega)
      omega
    · rw [admitted]
      by_cases hroll : window ≤ now - start
      · rw [if_pos hroll]
        by_cases hevent : event ∧ 0 < max
        · rw [if_pos hevent]
          by_cases hin : low < now + window
          · have hnext : inside low (low + window) (admitted max window now 1 rest)
                ≤ max - 1 + max := inside_le_of_lt_next hrest hwindow (by omega)
            have hcons := inside_cons_le low (low + window) now (admitted max window now 1 rest)
            omega
          · have ih : inside low (low + window) (admitted max window now 1 rest) ≤ 2 * max :=
              inside_admitted_le hrest hwindow
            rw [inside_cons, if_neg (by omega)]
            exact ih
        · rw [if_neg hevent]
          exact inside_admitted_le hrest hwindow
      · rw [if_neg hroll]
        -- what the window admits comes before its end
        by_cases hevent : event ∧ used < max
        · have ih : inside low (low + window) (admitted max window start (used + 1) rest)
              ≤ 2 * max := inside_admitted_le hrest hwindow
          rw [if_pos hevent, inside_cons, if_neg (by omega)]
          exact ih
        · rw [if_neg hevent]
          exact inside_admitted_le hrest hwindow

end Ostrich.FixedWindow
