import Mathlib.Data.Nat.Basic

/-!
# Outcomes of a partial computation

`Outcome ε α` is the result of a function that can return a value, return an error, abort
(`panic`), or fail to leave a loop within the rounds it is given (`hang`).  The monad runs the
computations in order and stops at the first one that does not return a value.

`whileLoop c body fuel s` is `while c s { s = body s }` with at most `fuel` rounds.
`whileLoop_ok_add` says that more rounds never change a result, so a loop that ends within some
number of rounds has one result.
-/

namespace Ostrich

/-- An `Except` computation that succeeds went through each of its steps. -/
theorem bind_eq_ok {ε α β : Type} {x : Except ε α} {f : α → Except ε β} {b : β}
    (h : (x >>= f) = .ok b) : ∃ a, x = .ok a ∧ f a = .ok b := by
  cases x with
  | error e => cases h
  | ok a => exact ⟨a, rfl, h⟩

theorem bind_eq_ok_iff {ε α β : Type} {x : Except ε α} {f : α → Except ε β} {b : β} :
    (x >>= f) = .ok b ↔ ∃ a, x = .ok a ∧ f a = .ok b := by
  constructor
  · exact bind_eq_ok
  · rintro ⟨a, rfl, h⟩
    exact h

theorem eq_ok_of_toOption {ε α : Type} {x : Except ε α} {a : α} (h : x.toOption = some a) :
    x = .ok a := by
  cases x with
  | error e => cases h
  | ok b => exact congrArg _ (Option.some.inj h)

/-- The results of a list of computations are those of its elements: each element has one, and
each is that of an element. -/
theorem mapM_eq_ok {ε α β : Type} {f : α → Except ε β} {l : List α} {l' : List β}
    (h : l.mapM f = .ok l') :
    (∀ a ∈ l, ∃ b ∈ l', f a = .ok b) ∧ ∀ b ∈ l', ∃ a ∈ l, f a = .ok b := by
  induction l generalizing l' with
  | nil =>
    obtain rfl := Except.ok.inj h
    simp
  | cons a l ih =>
    rw [List.mapM_cons] at h
    obtain ⟨b, hb, h⟩ := bind_eq_ok h
    obtain ⟨bs, hbs, h⟩ := bind_eq_ok h
    obtain rfl := Except.ok.inj h
    obtain ⟨hleft, hright⟩ := ih hbs
    refine ⟨fun a' ha' => ?_, fun b' hb' => ?_⟩
    · rcases List.mem_cons.mp ha' with rfl | ha'
      · exact ⟨b, List.mem_cons_self .., hb⟩
      · obtain ⟨b', hb', hf⟩ := hleft a' ha'
        exact ⟨b', List.mem_cons_of_mem _ hb', hf⟩
    · rcases List.mem_cons.mp hb' with rfl | hb'
      · exact ⟨a, List.mem_cons_self .., hb⟩
      · obtain ⟨a', ha', hf⟩ := hright b' hb'
        exact ⟨a', List.mem_cons_of_mem _ ha', hf⟩

/-- A list of computations fails with the error of one of them. -/
theorem exists_of_mapM_eq_error {ε α β : Type} {f : α → Except ε β} {l : List α} {e : ε}
    (h : l.mapM f = .error e) : ∃ a ∈ l, f a = .error e := by
  induction l with
  | nil => cases h
  | cons a l ih =>
    rw [List.mapM_cons] at h
    cases ha : f a with
    | error e' =>
      rw [ha] at h
      obtain rfl := Except.error.inj h
      exact ⟨a, List.mem_cons_self .., ha⟩
    | ok b =>
      cases hl : l.mapM f with
      | error e' =>
        rw [ha, hl] at h
        obtain rfl := Except.error.inj h
        obtain ⟨a', ha', he⟩ := ih hl
        exact ⟨a', List.mem_cons_of_mem _ ha', he⟩
      | ok bs =>
        rw [ha, hl] at h
        cases h

/-- What running a function can end in. -/
inductive Outcome (ε α : Type) where
  | ok (a : α)
  | err (e : ε)
  | panic
  | hang
  deriving DecidableEq, Repr

namespace Outcome

variable {ε α β σ : Type}

/-- Run `x`, then `f` on its value. -/
def bind (x : Outcome ε α) (f : α → Outcome ε β) : Outcome ε β :=
  match x with
  | .ok a => f a
  | .err e => .err e
  | .panic => .panic
  | .hang => .hang

instance : Monad (Outcome ε) where
  pure := .ok
  bind := bind

@[simp] theorem pure_eq (a : α) : (pure a : Outcome ε α) = .ok a := rfl

@[simp] theorem ok_bind (a : α) (f : α → Outcome ε β) : (Outcome.ok a >>= f) = f a := rfl

@[simp] theorem err_bind (e : ε) (f : α → Outcome ε β) : (Outcome.err e >>= f) = .err e := rfl

@[simp] theorem panic_bind (f : α → Outcome ε β) : (Outcome.panic >>= f) = .panic := rfl

@[simp] theorem hang_bind (f : α → Outcome ε β) : (Outcome.hang >>= f) = .hang := rfl

instance : LawfulMonad (Outcome ε) :=
  LawfulMonad.mk' _
    (fun x => by cases x <;> rfl)
    (fun _ _ => rfl)
    (fun x _ _ => by cases x <;> rfl)

/-- An outcome that is a value went through each of its steps. -/
theorem eq_ok_of_bind {x : Outcome ε α} {f : α → Outcome ε β} {b : β} (h : (x >>= f) = .ok b) :
    ∃ a, x = .ok a ∧ f a = .ok b := by
  cases x with
  | ok a => exact ⟨a, rfl, h⟩
  | err e => cases h
  | panic => cases h
  | hang => cases h

/-- The function returns: it neither aborts nor stays in a loop. -/
def Returns : Outcome ε α → Prop
  | .ok _ => True
  | .err _ => True
  | .panic => False
  | .hang => False

theorem returns_bind {x : Outcome ε α} {f : α → Outcome ε β} (hx : x.Returns)
    (hf : ∀ a, x = .ok a → (f a).Returns) : (x >>= f).Returns := by
  cases x with
  | ok a => exact hf a rfl
  | err e => trivial
  | panic => exact hx
  | hang => exact hx

/-- The value of an outcome, or `d` if there is none. -/
def getD (x : Outcome ε α) (d : α) : α :=
  match x with
  | .ok a => a
  | _ => d

/-! ### Loops over a list -/

theorem foldlM_ok {f : β → α → Outcome ε β} {g : β → α → β} :
    ∀ (l : List α) (b : β), (∀ b, ∀ a ∈ l, f b a = .ok (g b a)) →
      l.foldlM f b = .ok (l.foldl g b) := by
  intro l
  induction l with
  | nil => intro b _; rfl
  | cons a l ih =>
    intro b h
    rw [List.foldlM_cons, h b a (List.mem_cons_self ..), ok_bind, List.foldl_cons]
    exact ih _ fun b a ha => h b a (List.mem_cons_of_mem _ ha)

theorem mapM_ok {f : α → Outcome ε β} {g : α → β} :
    ∀ l : List α, (∀ a ∈ l, f a = .ok (g a)) → l.mapM f = .ok (l.map g) := by
  intro l
  induction l with
  | nil => intro _; rfl
  | cons a l ih =>
    intro h
    rw [List.mapM_cons, h a (List.mem_cons_self ..), ok_bind,
      ih fun a ha => h a (List.mem_cons_of_mem _ ha), ok_bind]
    rfl

/-- A loop whose steps all give a value. -/
theorem exists_foldlM_ok {f : β → α → Outcome ε β} : ∀ {l : List α} (b : β),
    (∀ b, ∀ a ∈ l, ∃ c, f b a = .ok c) → ∃ c, l.foldlM f b = .ok c := by
  intro l
  induction l with
  | nil => intro b _; exact ⟨b, rfl⟩
  | cons a l ih =>
    intro b h
    obtain ⟨c, hc⟩ := h b a List.mem_cons_self
    obtain ⟨d, hd⟩ := ih c fun b x hx => h b x (List.mem_cons_of_mem a hx)
    exact ⟨d, by rw [List.foldlM_cons, hc, ok_bind, hd]⟩

/-- A loop one of whose steps panics, while the others give a value or panic too. -/
theorem foldlM_panic {f : β → α → Outcome ε β} : ∀ {l : List α} (b : β),
    (∀ b, ∀ a ∈ l, f b a = .panic ∨ ∃ c, f b a = .ok c) → (∃ a ∈ l, ∀ b, f b a = .panic) →
      l.foldlM f b = .panic := by
  intro l
  induction l with
  | nil => rintro b - ⟨a, ha, -⟩; cases ha
  | cons x l ih =>
    rintro b h ⟨a, ha, hpanic⟩
    rw [List.foldlM_cons]
    rcases h b x List.mem_cons_self with hx | ⟨c, hc⟩
    · rw [hx, panic_bind]
    · rw [hc, ok_bind]
      refine ih c (fun b y hy => h b y (List.mem_cons_of_mem x hy)) ⟨a, ?_, hpanic⟩
      rcases List.mem_cons.mp ha with rfl | ha
      · have := hpanic b
        rw [hc] at this
        cases this
      · exact ha

theorem exists_mapM_ok {f : α → Outcome ε β} {l : List α} (h : ∀ a ∈ l, ∃ b, f a = .ok b) :
    ∃ bs, l.mapM f = .ok bs := by
  induction l with
  | nil => exact ⟨[], rfl⟩
  | cons a l ih =>
    obtain ⟨b, hb⟩ := h a List.mem_cons_self
    obtain ⟨bs, hbs⟩ := ih fun x hx => h x (List.mem_cons_of_mem a hx)
    exact ⟨b :: bs, by rw [List.mapM_cons, hb, ok_bind, hbs, ok_bind]; rfl⟩

/-! ### Bounded `while` loops -/

/-- `while c s { s = body s }`, giving up (`hang`) after `fuel` rounds. -/
def whileLoop (c : σ → Bool) (body : σ → Outcome ε σ) : ℕ → σ → Outcome ε σ
  | 0, s => if c s then .hang else .ok s
  | fuel + 1, s => if c s then body s >>= whileLoop c body fuel else .ok s

/-- More rounds do not change the result of a loop that ended. -/
theorem whileLoop_ok_add {c : σ → Bool} {body : σ → Outcome ε σ} (k : ℕ) :
    ∀ (fuel : ℕ) (s r : σ), whileLoop c body fuel s = .ok r →
      whileLoop c body (fuel + k) s = .ok r := by
  intro fuel
  induction fuel with
  | zero =>
    intro s r h
    rw [whileLoop] at h
    split_ifs at h with hc
    rw [Nat.zero_add, ← h]
    cases k <;> simp [whileLoop, hc]
  | succ fuel ih =>
    intro s r h
    rw [show fuel + 1 + k = fuel + k + 1 by omega]
    rw [whileLoop] at h ⊢
    split_ifs at h ⊢ with hc
    · cases hb : body s with
      | ok s' =>
        rw [hb] at h
        exact ih s' r h
      | err e => rw [hb] at h; cases h
      | panic => rw [hb] at h; cases h
      | hang => rw [hb] at h; cases h
    · exact h

/-- **Total correctness of a loop**: if every round keeps `P` and lowers the measure `m`, then
`m s` rounds are enough to leave the loop, in a state with `P` where the condition fails. -/
theorem whileLoop_total {c : σ → Bool} {body : σ → Outcome ε σ} (P : σ → Prop) (m : σ → ℕ)
    (hstep : ∀ s, c s = true → P s → ∃ s', body s = .ok s' ∧ P s' ∧ m s' < m s) :
    ∀ (fuel : ℕ) (s : σ), m s ≤ fuel → P s →
      ∃ r, whileLoop c body fuel s = .ok r ∧ P r ∧ c r = false := by
  intro fuel
  induction fuel with
  | zero =>
    intro s hm hP
    cases hc : c s with
    | true =>
      obtain ⟨s', _, _, hlt⟩ := hstep s hc hP
      omega
    | false => exact ⟨s, by simp [whileLoop, hc], hP, hc⟩
  | succ fuel ih =>
    intro s hm hP
    cases hc : c s with
    | true =>
      obtain ⟨s', hs', hP', hlt⟩ := hstep s hc hP
      obtain ⟨r, hr, hPr, hcr⟩ := ih s' (by omega) hP'
      exact ⟨r, by simp [whileLoop, hc, hs', hr], hPr, hcr⟩
    | false => exact ⟨s, by simp [whileLoop, hc], hP, hc⟩

end Outcome

end Ostrich
