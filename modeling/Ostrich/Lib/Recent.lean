import Mathlib.Data.List.DropRight

/-!
# The recent part of a stream

Two views of the end of a stream that a monitor keeps while the stream grows.  `List.rtake n` is the
window of the last `n` elements: a push gives the window that is one longer
(`List.rtake_concat_succ`), and dropping its oldest element the window of the old length
(`tail_rtake_succ`).  `streak` is the length of the run of equal elements at the front of a list
with the newest element first.
-/

namespace Ostrich.Recent

variable {α : Type*}

/-! ### Windows -/

theorem length_rtake (l : List α) (n : ℕ) : (l.rtake n).length = min n l.length := by
  rw [List.rtake, List.length_drop]
  omega

theorem rtake_of_length_le {l : List α} {n : ℕ} (h : l.length ≤ n) : l.rtake n = l := by
  rw [List.rtake, Nat.sub_eq_zero_of_le h, List.drop_zero]

/-- A full window without its oldest element. -/
theorem tail_rtake_succ {l : List α} {n : ℕ} (h : n < l.length) :
    (l.rtake (n + 1)).tail = l.rtake n := by
  rw [List.rtake, List.rtake, List.tail_drop]
  congr 1
  omega

/-! ### Streaks -/

variable [DecidableEq α]

/-- The length of the run of equal elements at the front. -/
def streak : List α → ℕ
  | [] => 0
  | a :: l => (l.takeWhile (· = a)).length + 1

@[simp] theorem streak_nil : streak ([] : List α) = 0 := rfl

@[simp] theorem streak_singleton (a : α) : streak [a] = 1 := rfl

theorem streak_cons_self (a : α) (l : List α) :
    streak (a :: a :: l) = streak (a :: l) + 1 := by
  show ((a :: l).takeWhile (· = a)).length + 1 = _
  rw [List.takeWhile_cons_of_pos (by simp)]
  rfl

theorem streak_cons_of_ne {a b : α} (h : b ≠ a) (l : List α) : streak (a :: b :: l) = 1 := by
  show ((b :: l).takeWhile (· = a)).length + 1 = _
  rw [List.takeWhile_cons_of_neg (by simpa using h)]
  rfl

theorem streak_le_length (l : List α) : streak l ≤ l.length := by
  cases l with
  | nil => exact Nat.le_refl 0
  | cons a l => exact Nat.succ_le_succ (List.takeWhile_prefix _).length_le

theorem streak_replicate (n : ℕ) (a : α) : streak (List.replicate n a) = n := by
  induction n with
  | zero => rfl
  | succ n ih =>
    cases n with
    | zero => rfl
    | succ n =>
      rw [List.replicate_succ, List.replicate_succ, streak_cons_self, ← List.replicate_succ, ih]

end Ostrich.Recent
