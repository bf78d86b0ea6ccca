import Mathlib.Algebra.BigOperators.Group.Finset.Basic
import Mathlib.Algebra.Order.BigOperators.Group.Finset
import Ostrich.Lib.Interleave

/-!
# Sums over the tasks of a run

`World.total f` is the sum of `f` over the histories of all tasks.  A call changes the history of
one task, so the sum changes by what `f` gains there (`total_after`); the other events change no
history (`total_add`).  What holds of `f` in each task, holds of the sum (`total_mono`).
-/

namespace Ostrich.Interleave

open Finset

variable {Call : Type} {Reply : Call → Type} {Err Result Task Store Choice : Type}

namespace World

/-- The numbers of the tasks in the log. -/
def taskSet (w : World Call Reply Err Result Task Store) : Finset ℕ :=
  (w.log.map Event.task).toFinset

/-- The sum of `f` over the tasks. -/
def total (f : History Call Reply → ℤ) (w : World Call Reply Err Result Task Store) : ℤ :=
  ∑ i ∈ w.taskSet, f (w.history i)

variable {w : World Call Reply Err Result Task Store} {f g : History Call Reply → ℤ}

theorem mem_taskSet {i : ℕ} : i ∈ w.taskSet ↔ ∃ ev ∈ w.log, ev.task = i := by
  rw [taskSet, List.mem_toFinset, List.mem_map]

/-- A task that is not in the log has made no call. -/
theorem history_of_not_mem {i : ℕ} (hi : i ∉ w.taskSet) : w.history i = [] := by
  refine Fresh.history fun ev hev htask => hi ?_
  exact mem_taskSet.mpr ⟨ev, hev, htask⟩

/-- Tasks that have made no call do not count. -/
theorem total_eq_sum (hf : f [] = 0) {tasks : Finset ℕ} (htasks : w.taskSet ⊆ tasks) :
    w.total f = ∑ i ∈ tasks, f (w.history i) := by
  refine sum_subset htasks fun i _ hi => ?_
  rw [history_of_not_mem hi, hf]

/-- Events that are no calls change no sum. -/
theorem total_add (hf : f [] = 0) {ev : Event Call Reply Err Result Task}
    (hev : ∀ i e r, ev ≠ .call i e r) : (w.add [ev]).total f = w.total f := by
  have hsub : w.taskSet ⊆ (w.add [ev]).taskSet := by
    intro i hi
    obtain ⟨ev', hev', htask⟩ := mem_taskSet.mp hi
    exact mem_taskSet.mpr ⟨ev', List.mem_append_left _ hev', htask⟩
  rw [total_eq_sum hf hsub]
  refine sum_congr rfl fun i _ => ?_
  have hnone : historyOf i [ev] = [] := by
    cases ev with
    | call j e r => exact absurd rfl (hev j e r)
    | _ => rfl
  rw [history_add, hnone, List.append_nil]

theorem total_mono (h : ∀ i, f (w.history i) ≤ g (w.history i)) : w.total f ≤ w.total g :=
  sum_le_sum fun i _ => h i

theorem total_nonpos (h : ∀ i, f (w.history i) ≤ 0) : w.total f ≤ 0 := sum_nonpos fun i _ => h i

theorem total_sub : (w.total fun h => f h - g h) = w.total f - w.total g := sum_sub_distrib ..

end World

variable (S : System Call Reply Err Result Task Store Choice)

/-- **A call** changes the sum by what the task that makes it gains. -/
theorem System.total_after {f : History Call Reply → ℤ} (hf : f [] = 0) (i n : ℕ) (e : Call)
    (c : Choice) (w : World Call Reply Err Result Task Store) :
    (S.after i n e c w).total f
      = w.total f + (f (w.history i ++ [⟨e, (S.exec e c w.store).1⟩]) - f (w.history i)) := by
  have hmem : i ∈ (S.after i n e c w).taskSet :=
    World.mem_taskSet.mpr ⟨_, List.mem_append_right _ (List.mem_cons_self ..), rfl⟩
  have hsub : w.taskSet ⊆ (S.after i n e c w).taskSet := by
    intro j hj
    obtain ⟨ev, hev, htask⟩ := World.mem_taskSet.mp hj
    exact World.mem_taskSet.mpr ⟨ev, S.mem_after_of_mem hev, htask⟩
  -- the histories of the other tasks are those before
  have hrest : ∑ j ∈ (S.after i n e c w).taskSet.erase i, f ((S.after i n e c w).history j)
      = ∑ j ∈ (S.after i n e c w).taskSet.erase i, f (w.history j) := by
    refine sum_congr rfl fun j hj => ?_
    rw [S.history_after, if_neg (ne_of_mem_erase hj), List.append_nil]
  rw [World.total, World.total_eq_sum hf hsub, ← add_sum_erase _ _ hmem, hrest,
    ← add_sum_erase _ (fun j => f (w.history j)) hmem, S.history_after, if_pos rfl]
  omega

end Ostrich.Interleave
