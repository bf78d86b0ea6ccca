import Mathlib.Data.List.Pairwise
import Mathlib.Logic.Function.Basic
import Mathlib.Tactic.Common

/-!
# Lists of edits of a keyed store

A store is a partial function from keys to values.  An `Edit` adds a value under a new key, removes
a key, or changes the value of a key.

* `Legal es s`: each edit is allowed in the store that the edits before it leave;
* `Checked es s`: each edit is allowed in the store `s` itself, as a program sees it that looks at
  the store once and writes later;
* `Inserts es s`: the writes succeed, where only adding a key that is there fails.

`legal_iff_unremoved`: if the edits are checked and the writes succeed, then the list is legal
exactly if no key is changed after it was removed.
-/

namespace Ostrich.EditList

variable {κ α : Type}

/-- One edit. -/
inductive Edit (κ α : Type) where
  | add (key : κ) (value : α)
  | remove (key : κ)
  | change (key : κ) (f : α → α)

/-- The key that the edit is about. -/
def Edit.key : Edit κ α → κ
  | .add key _ => key
  | .remove key => key
  | .change key _ => key

/-- The edit is allowed in this store. -/
def Edit.Allowed (s : κ → Option α) : Edit κ α → Prop
  | .add key _ => s key = none
  | .remove _ => True
  | .change key _ => s key ≠ none

/-- Each edit is allowed in this store. -/
def Checked (es : List (Edit κ α)) (s : κ → Option α) : Prop := ∀ e ∈ es, e.Allowed s

/-- No key is changed after it was removed. -/
def Unremoved (es : List (Edit κ α)) : Prop :=
  es.Pairwise fun e e' => ∀ key f, e = .remove key → e' ≠ .change key f

section

variable [DecidableEq κ]

/-- What the edit writes: the change of a key that is not there writes nothing. -/
def Edit.write (s : κ → Option α) (e : Edit κ α) : κ → Option α :=
  Function.update s e.key <| match e with
    | .add _ value => some value
    | .remove _ => none
    | .change key f => (s key).map f

theorem write_of_ne {s : κ → Option α} {e : Edit κ α} {key : κ} (h : key ≠ e.key) :
    e.write s key = s key :=
  Function.update_of_ne h ..

@[simp] theorem write_add (s : κ → Option α) (key : κ) (value : α) :
    (Edit.add key value).write s key = some value :=
  Function.update_self ..

@[simp] theorem write_remove (s : κ → Option α) (key : κ) :
    (Edit.remove key : Edit κ α).write s key = none :=
  Function.update_self ..

@[simp] theorem write_change (s : κ → Option α) (key : κ) (f : α → α) :
    (Edit.change key f).write s key = (s key).map f :=
  Function.update_self ..

/-- Only a removal takes a key away. -/
theorem write_ne_none {s : κ → Option α} {e : Edit κ α} {key : κ} (hs : s key ≠ none)
    (he : e ≠ .remove key) : e.write s key ≠ none := by
  by_cases hkey : key = e.key
  · subst hkey
    unfold Edit.write
    rw [Function.update_self]
    cases e with
    | add key value => simp
    | remove key => exact absurd rfl he
    | change key f =>
      dsimp only
      rw [ne_eq, Option.map_eq_none_iff]
      exact hs
  · rw [write_of_ne hkey]
    exact hs

/-- Only an addition brings a key. -/
theorem write_eq_none {s : κ → Option α} {e : Edit κ α} {key : κ} (hs : s key = none)
    (he : ∀ value, e ≠ .add key value) : e.write s key = none := by
  by_cases hkey : key = e.key
  · subst hkey
    unfold Edit.write
    rw [Function.update_self]
    cases e with
    | add key value => exact absurd rfl (he value)
    | remove key => rfl
    | change key f =>
      dsimp only
      rw [Option.map_eq_none_iff]
      exact hs
  · rw [write_of_ne hkey]
    exact hs

/-- The store after the edits. -/
def result (es : List (Edit κ α)) (s : κ → Option α) : κ → Option α := es.foldl Edit.write s

/-- Each edit is allowed in the store that the ones before it leave. -/
def Legal : List (Edit κ α) → (κ → Option α) → Prop
  | [], _ => True
  | e :: es, s => e.Allowed s ∧ Legal es (e.write s)

/-- No key is added that is there when its turn comes. -/
def Inserts : List (Edit κ α) → (κ → Option α) → Prop
  | [], _ => True
  | e :: es, s => (∀ key value, e = .add key value → s key = none) ∧ Inserts es (e.write s)

theorem Legal.inserts {es : List (Edit κ α)} {s : κ → Option α} (h : Legal es s) :
    Inserts es s := by
  induction es generalizing s with
  | nil => exact trivial
  | cons e es ih =>
    obtain ⟨hallowed, hlegal⟩ := h
    refine ⟨fun key value heq => ?_, ih hlegal⟩
    subst heq
    exact hallowed

/-- A key that is not there and is never added cannot be changed. -/
theorem not_legal_of_change {es : List (Edit κ α)} {s : κ → Option α} {key : κ} {f : α → α}
    (hs : s key = none) (hchange : .change key f ∈ es) (hadd : ∀ value, .add key value ∉ es) :
    ¬Legal es s := by
  induction es generalizing s with
  | nil => exact absurd hchange List.not_mem_nil
  | cons e es ih =>
    rintro ⟨hallowed, hlegal⟩
    rcases List.mem_cons.mp hchange with heq | hmem
    · subst heq
      exact hallowed hs
    · have hkeep : e.write s key = none := by
        refine write_eq_none hs fun value heq => hadd value ?_
        rw [← heq]
        exact List.mem_cons_self ..
      exact ih hkeep hmem (fun value hmem => hadd value (List.mem_cons_of_mem _ hmem)) hlegal

/-- **Checked lists**: if every changed key is there and is not added, and the writes succeed, the
list is legal exactly if no key is changed after it was removed. -/
theorem legal_iff_of_present {es : List (Edit κ α)} {s : κ → Option α}
    (hpresent : ∀ key f, .change key f ∈ es → s key ≠ none ∧ ∀ value, .add key value ∉ es)
    (hinserts : Inserts es s) : Legal es s ↔ Unremoved es := by
  induction es generalizing s with
  | nil => exact ⟨fun _ => List.Pairwise.nil, fun _ => trivial⟩
  | cons e es ih =>
    obtain ⟨hnew, hinserts⟩ := hinserts
    have hsome {key : κ} {f : α → α} (hmem : .change key f ∈ es) : s key ≠ none :=
      (hpresent key f (List.mem_cons_of_mem _ hmem)).1
    have hfresh {key : κ} {f : α → α} (hmem : .change key f ∈ es) (value : α) :
        .add key value ∉ es := fun hadd =>
      (hpresent key f (List.mem_cons_of_mem _ hmem)).2 value (List.mem_cons_of_mem _ hadd)
    have hallowed : e.Allowed s := by
      cases e with
      | add key value => exact hnew key value rfl
      | remove key => exact trivial
      | change key f => exact (hpresent key f (List.mem_cons_self ..)).1
    unfold Legal Unremoved
    rw [List.pairwise_cons]
    by_cases hstale : ∃ key f, e = .remove key ∧ .change key f ∈ es
    · -- the removed key stays away until its change
      obtain ⟨key, f, rfl, hmem⟩ := hstale
      have hnot := not_legal_of_change (write_remove s key) hmem (hfresh hmem)
      exact ⟨fun h => absurd h.2 hnot, fun h => absurd rfl (h.1 _ hmem key f rfl)⟩
    · have hfirst : ∀ e' ∈ es, ∀ key f, e = .remove key → e' ≠ .change key f := by
        rintro e' hmem key f heq rfl
        exact hstale ⟨key, f, heq, hmem⟩
      have hrest : Legal es (e.write s) ↔ Unremoved es := by
        refine ih (fun key f hmem => ⟨write_ne_none (hsome hmem) fun heq => ?_, hfresh hmem⟩)
          hinserts
        exact hfirst _ hmem key f heq rfl
      rw [hrest]
      exact ⟨fun h => ⟨hfirst, h.2⟩, fun h => ⟨hallowed, h.2⟩⟩

/-- If the edits are checked and the writes succeed, the list is legal exactly if no key is changed
after it was removed. -/
theorem legal_iff_unremoved {es : List (Edit κ α)} {s : κ → Option α} (hchecked : Checked es s)
    (hinserts : Inserts es s) : Legal es s ↔ Unremoved es := by
  refine legal_iff_of_present (fun key f hmem => ?_) hinserts
  have hsome : s key ≠ none := hchecked _ hmem
  exact ⟨hsome, fun value hadd => hsome (hchecked _ hadd)⟩

end

end Ostrich.EditList
