import Ostrich.Lib.Interleave

/-!
# Programs that run by themselves

`Prog.outcome exec c p s` is the result and the store of the program `p` that starts with the store
`s` and gets the choice `c` for each of its calls.
-/

namespace Ostrich.Interleave.Prog

variable {Call : Type} {Reply : Call → Type} {ε α β Store Choice : Type}

/-- The result and the store at the end. -/
def outcome (exec : (e : Call) → Choice → Store → Reply e × Store) (c : Choice) :
    Prog Call Reply ε α → Store → Except ε α × Store
  | .ret a, s => (.ok a, s)
  | .fail e, s => (.error e, s)
  | .call e k, s => outcome exec c (k (exec e c s).1) (exec e c s).2

variable {exec : (e : Call) → Choice → Store → Reply e × Store} {c : Choice} {s s' : Store}

theorem outcome_pure_eq_ok {a b : α} :
    (pure a : Prog Call Reply ε α).outcome exec c s = (.ok b, s') ↔ b = a ∧ s' = s := by
  show (Except.ok a, s) = (Except.ok b, s') ↔ _
  simp only [Prod.mk.injEq, Except.ok.injEq, eq_comm]

theorem outcome_ofExcept_eq_ok {x : Except ε α} {a : α} :
    (ofExcept x : Prog Call Reply ε α).outcome exec c s = (.ok a, s') ↔ x = .ok a ∧ s' = s := by
  have heq : (ofExcept x : Prog Call Reply ε α).outcome exec c s = (x, s) := by cases x <;> rfl
  rw [heq, Prod.mk.injEq, eq_comm (a := s)]

/-- The rule of sequence. -/
theorem outcome_bind (exec : (e : Call) → Choice → Store → Reply e × Store) (c : Choice)
    (s : Store) (p : Prog Call Reply ε α) (f : α → Prog Call Reply ε β) :
    (∃ a s', p.outcome exec c s = (.ok a, s') ∧
      (p >>= f).outcome exec c s = (f a).outcome exec c s') ∨
    ∃ e s', p.outcome exec c s = (.error e, s') ∧ (p >>= f).outcome exec c s = (.error e, s') := by
  induction p generalizing s with
  | ret a => exact .inl ⟨a, s, rfl, rfl⟩
  | fail e => exact .inr ⟨e, s, rfl, rfl⟩
  | call e k ih => exact ih (exec e c s).1 _

/-- A sequence that returns. -/
theorem outcome_bind_eq_ok {p : Prog Call Reply ε α} {f : α → Prog Call Reply ε β} {b : β} :
    (p >>= f).outcome exec c s = (.ok b, s') ↔
      ∃ a s₁, p.outcome exec c s = (.ok a, s₁) ∧ (f a).outcome exec c s₁ = (.ok b, s') := by
  rcases outcome_bind exec c s p f with
    ⟨a, s₁, hp, heq⟩ | ⟨e, s₁, hp, heq⟩
  · rw [heq]
    constructor
    · intro h
      exact ⟨a, s₁, hp, h⟩
    · rintro ⟨a', s₁', hp', h⟩
      obtain ⟨ha, rfl⟩ := Prod.mk.inj (hp.symm.trans hp')
      obtain rfl := Except.ok.inj ha
      exact h
  · rw [heq]
    constructor
    · intro h
      cases (Prod.mk.inj h).1
    · rintro ⟨a, s₁', hp', -⟩
      cases (Prod.mk.inj (hp.symm.trans hp')).1

/-- A sequence that fails. -/
theorem outcome_bind_eq_error {p : Prog Call Reply ε α} {f : α → Prog Call Reply ε β} {e : ε}
    (h : (p >>= f).outcome exec c s = (.error e, s')) :
    p.outcome exec c s = (.error e, s') ∨
      ∃ a s₁, p.outcome exec c s = (.ok a, s₁) ∧ (f a).outcome exec c s₁ = (.error e, s') := by
  rcases outcome_bind exec c s p f with
    ⟨a, s₁, hp, heq⟩ | ⟨e', s₁, hp, heq⟩
  · exact .inr ⟨a, s₁, hp, heq.symm.trans h⟩
  · obtain ⟨he, rfl⟩ := Prod.mk.inj (heq.symm.trans h)
    obtain rfl := Except.error.inj he
    exact .inl hp

/-- What its calls keep, a program keeps. -/
theorem Does.outcome {calls : History Call Reply → Call → Prop}
    {result : α → History Call Reply → Prop} {p : Prog Call Reply ε α} {h : History Call Reply}
    (hp : p.Does calls result h) {γ : Type} {F : Store → γ}
    (hkeep : ∀ h e, calls h e → ∀ s, F (exec e c s).2 = F s) :
    F (p.outcome exec c s).2 = F s := by
  induction p generalizing h s with
  | ret a => rfl
  | fail e => rfl
  | call e k ih => exact (ih _ (hp.2 (exec e c s).1)).trans (hkeep h e hp.1 s)

end Ostrich.Interleave.Prog
