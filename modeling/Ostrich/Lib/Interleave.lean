import Mathlib.Data.List.Basic
import Mathlib.Tactic.Common

/-!
# Interleaved tasks over a shared store

A task is a program (`Prog`) that makes calls, one atomic step each, and goes on with the reply.
A `System` says what the tasks do (`body`), what a call does to the store (`exec`, where the
`Choice` stands for everything that the caller does not control: clock, random values, failures)
and which calls start another task (`spawned`).  A `Config` is the store, the log of everything
that happened, and the tasks in flight; `System.step` lets one task make its next call, so a list
of actions is a schedule.

What a task does by itself is said over its `History`, the calls it made so far with their replies:
`Prog.Wp calls result p h` holds if, whatever the replies, every call that `p` makes after the
history `h` is one that `calls` admits there, and `p` ends with `result`; `Prog.Does` is the same
for programs whose errors are of no concern.

What all tasks do together is an invariant of the `World` (store and log).  `System.Preserves` is
the step: it is proved call by call, from the specification of the task that makes the call, and
`System.Preserves.reach` gives the invariant in every state of every schedule.  What one task did
before another is read off the log: `Reach.made` gives back, for a call in the log, the state of the
run in which it was made.
-/

namespace Ostrich.Interleave

/-! ### Programs -/

/-- A program that makes calls `e`, each answered by a `Reply e`, and ends in a value or an
error. -/
inductive Prog (Call : Type) (Reply : Call → Type) (ε α : Type) : Type where
  | ret (a : α)
  | fail (e : ε)
  | call (e : Call) (k : Reply e → Prog Call Reply ε α)

/-- The calls that a program made, with their replies. -/
abbrev History (Call : Type) (Reply : Call → Type) := List ((e : Call) × Reply e)

section

variable {Call : Type} {Reply : Call → Type} {P : Call → Bool} {h h' h'' : History Call Reply}

/-- The history grew by calls of `P` only. -/
def History.Grows (P : Call → Bool) (h h' : History Call Reply) : Prop :=
  ∃ new, h' = h ++ new ∧ ∀ s ∈ new, P s.1 = true

theorem History.Grows.refl (h : History Call Reply) : Grows P h h :=
  ⟨[], (List.append_nil h).symm, by simp⟩

theorem History.Grows.trans (hgrow : Grows P h h') (hgrow' : Grows P h' h'') : Grows P h h'' := by
  obtain ⟨new, rfl, hnew⟩ := hgrow
  obtain ⟨new', rfl, hnew'⟩ := hgrow'
  refine ⟨new ++ new', List.append_assoc .., fun s hs => ?_⟩
  rcases List.mem_append.mp hs with hs | hs
  · exact hnew s hs
  · exact hnew' s hs

theorem grows_one {e : Call} (he : P e = true) (r : Reply e) :
    History.Grows P h (h ++ [⟨e, r⟩]) := by
  refine ⟨_, rfl, fun s hs => ?_⟩
  rw [List.mem_singleton.mp hs]
  exact he

theorem History.Grows.mem (hgrow : Grows P h h') {s : (e : Call) × Reply e} (hs : s ∈ h) :
    s ∈ h' := by
  obtain ⟨new, rfl, -⟩ := hgrow
  exact List.mem_append_left _ hs

theorem History.Grows.not_mem (hgrow : Grows P h h') {e : Call} (he : P e = false) {r : Reply e}
    (hr : ⟨e, r⟩ ∉ h) : ⟨e, r⟩ ∉ h' := by
  obtain ⟨new, rfl, hnew⟩ := hgrow
  intro hmem
  rcases List.mem_append.mp hmem with hmem | hmem
  · exact hr hmem
  · have := hnew _ hmem
    rw [he] at this
    cases this

end

namespace Prog

variable {Call : Type} {Reply : Call → Type} {ε α β : Type}

/-- Run `p`, then `f` on its value; an error ends the whole. -/
def bind : Prog Call Reply ε α → (α → Prog Call Reply ε β) → Prog Call Reply ε β
  | .ret a, f => f a
  | .fail e, _ => .fail e
  | .call e k, f => .call e fun r => (k r).bind f

instance : Monad (Prog Call Reply ε) where
  pure := .ret
  bind := bind

theorem bind_assoc {γ : Type} (p : Prog Call Reply ε α) (f : α → Prog Call Reply ε β)
    (g : β → Prog Call Reply ε γ) : p >>= f >>= g = p >>= fun a => f a >>= g := by
  induction p with
  | ret a => rfl
  | fail e => rfl
  | call e k ih => exact congrArg (Prog.call e) (funext ih)

/-- Make one call and return its reply. -/
def perform (e : Call) : Prog Call Reply ε (Reply e) := .call e .ret

/-- The value or the error of a result. -/
def ofExcept : Except ε α → Prog Call Reply ε α
  | .ok a => .ret a
  | .error e => .fail e

/-- Run `p` and keep its error as a value. -/
def attempt : Prog Call Reply ε α → Prog Call Reply ε (Except ε α)
  | .ret a => .ret (.ok a)
  | .fail e => .ret (.error e)
  | .call e k => .call e fun r => (k r).attempt

/-- Run `p` and keep its result as a value. -/
def result {ε' : Type} : Prog Call Reply ε α → Prog Call Reply ε' (Except ε α)
  | .ret a => .ret (.ok a)
  | .fail e => .ret (.error e)
  | .call e k => .call e fun r => (k r).result

/-- The result of a program that runs by itself, with these choices for its calls; `none` if they
do not suffice. -/
def alone {Store Choice : Type} (exec : (e : Call) → Choice → Store → Reply e × Store) :
    Prog Call Reply ε α → List Choice → Store → Option (Except ε α)
  | .ret a, _, _ => some (.ok a)
  | .fail e, _, _ => some (.error e)
  | .call _ _, [], _ => none
  | .call e k, c :: cs, s => alone exec (k (exec e c s).1) cs (exec e c s).2

/-- What a program that ran by itself leaves behind. -/
structure Solo (Call : Type) (Reply : Call → Type) (ε α Store Choice : Type) where
  result : Except ε α
  history : History Call Reply
  store : Store
  /-- The choices that it did not use. -/
  rest : List Choice

/-- A run of a program by itself, with these choices for its calls; `none` if they do not
suffice. -/
def solo {Store Choice : Type} (exec : (e : Call) → Choice → Store → Reply e × Store) :
    Prog Call Reply ε α → List Choice → Store → Option (Solo Call Reply ε α Store Choice)
  | .ret a, cs, s => some ⟨.ok a, [], s, cs⟩
  | .fail e, cs, s => some ⟨.error e, [], s, cs⟩
  | .call _ _, [], _ => none
  | .call e k, c :: cs, s =>
    (solo exec (k (exec e c s).1) cs (exec e c s).2).map fun run =>
      { run with history := ⟨e, (exec e c s).1⟩ :: run.history }

section

variable {Store Choice : Type} {exec : (e : Call) → Choice → Store → Reply e × Store}

/-- A sequence that starts with a call ran to its end: the call was made, and the rest ran. -/
theorem solo_perform {e : Call} {f : Reply e → Prog Call Reply ε β} {cs : List Choice} {s : Store}
    {run : Solo Call Reply ε β Store Choice}
    (h : (perform e >>= f).solo exec cs s = some run) :
    ∃ c cs' rest, cs = c :: cs' ∧ (f (exec e c s).1).solo exec cs' (exec e c s).2 = some rest ∧
      run = { rest with history := ⟨e, (exec e c s).1⟩ :: rest.history } := by
  cases cs with
  | nil => cases h
  | cons c cs =>
    obtain ⟨rest, hrest, rfl⟩ := Option.map_eq_some_iff.mp h
    exact ⟨c, cs, rest, rfl, hrest, rfl⟩

/-- A mapped program ran as the program. -/
theorem solo_map {p : Prog Call Reply ε α} (f : α → β) {cs : List Choice} {s : Store}
    {run : Solo Call Reply ε β Store Choice} (h : (f <$> p).solo exec cs s = some run) :
    ∃ first, p.solo exec cs s = some first ∧ run.result = first.result.map f ∧
      run.history = first.history ∧ run.store = first.store ∧ run.rest = first.rest := by
  induction p generalizing cs s run with
  | ret a =>
    obtain rfl := Option.some.inj h
    exact ⟨_, rfl, rfl, rfl, rfl, rfl⟩
  | fail e =>
    obtain rfl := Option.some.inj h
    exact ⟨_, rfl, rfl, rfl, rfl, rfl⟩
  | call e k ih =>
    cases cs with
    | nil => cases h
    | cons c cs =>
      obtain ⟨run', hrun', rfl⟩ := Option.map_eq_some_iff.mp h
      obtain ⟨first, hfirst, hresult, hhistory, hstore, hrest⟩ := ih _ hrun'
      refine ⟨{ first with history := ⟨e, (exec e c s).1⟩ :: first.history }, ?_, hresult,
        congrArg _ hhistory, hstore, hrest⟩
      rw [solo, hfirst]
      rfl

/-- A sequence ran to its end: the first part failed, or returned and the second part ran. -/
theorem solo_bind {p : Prog Call Reply ε α} {f : α → Prog Call Reply ε β} {cs : List Choice}
    {s : Store} {run : Solo Call Reply ε β Store Choice}
    (h : (p >>= f).solo exec cs s = some run) :
    (∃ e, p.solo exec cs s = some ⟨.error e, run.history, run.store, run.rest⟩ ∧
      run.result = .error e) ∨
    ∃ a h₁ s₁ cs₁ second, p.solo exec cs s = some ⟨.ok a, h₁, s₁, cs₁⟩ ∧
      (f a).solo exec cs₁ s₁ = some second ∧
      run = { second with history := h₁ ++ second.history } := by
  induction p generalizing cs s run with
  | ret a => exact .inr ⟨a, [], s, cs, run, rfl, h, rfl⟩
  | fail e =>
    obtain rfl := Option.some.inj h
    exact .inl ⟨e, rfl, rfl⟩
  | call e k ih =>
    cases cs with
    | nil => cases h
    | cons c cs =>
      obtain ⟨run', hrun', rfl⟩ := Option.map_eq_some_iff.mp h
      rcases ih _ hrun' with ⟨err, hfirst, hres⟩ | ⟨a, h₁, s₁, cs₁, second, hfirst, hsecond, rfl⟩
      · refine .inl ⟨err, ?_, hres⟩
        rw [solo, hfirst]
        rfl
      · refine .inr ⟨a, ⟨e, (exec e c s).1⟩ :: h₁, s₁, cs₁, second, ?_, hsecond, rfl⟩
        rw [solo, hfirst]
        rfl

/-- The first part returned, so the second part runs. -/
theorem solo_bind_of_ok {p : Prog Call Reply ε α} {f : α → Prog Call Reply ε β}
    {cs cs' : List Choice} {s s' : Store} {a : α} {h : History Call Reply}
    (hfirst : p.solo exec cs s = some ⟨.ok a, h, s', cs'⟩)
    {second : Solo Call Reply ε β Store Choice} (hsecond : (f a).solo exec cs' s' = some second) :
    (p >>= f).solo exec cs s = some { second with history := h ++ second.history } := by
  induction p generalizing cs s h with
  | ret b =>
    obtain ⟨hb, rfl, rfl, rfl⟩ := Solo.mk.inj (Option.some.inj hfirst)
    obtain rfl := Except.ok.inj hb
    exact hsecond
  | fail e =>
    obtain ⟨hb, -⟩ := Solo.mk.inj (Option.some.inj hfirst)
    cases hb
  | call e k ih =>
    cases cs with
    | nil => cases hfirst
    | cons c cs =>
      obtain ⟨run, hrun, heq⟩ := Option.map_eq_some_iff.mp hfirst
      obtain ⟨hresult, rfl, hstore, hrest⟩ := Solo.mk.inj heq
      have hrun' : run = ⟨.ok a, run.history, s', cs'⟩ := by
        rw [← hresult, ← hstore, ← hrest]
      rw [hrun'] at hrun
      show ((k (exec e c s).1 >>= f).solo exec cs (exec e c s).2).map _ = _
      rw [ih _ hrun]
      rfl

/-- With `c` for each of its calls, the program ends with this value and this store. -/
def Ends (exec : (e : Call) → Choice → Store → Reply e × Store) (c : Choice)
    (p : Prog Call Reply ε α) (s : Store) (a : α) (s' : Store) : Prop :=
  ∃ k h, ∀ rest, p.solo exec (List.replicate k c ++ rest) s = some ⟨.ok a, h, s', rest⟩

variable {c : Choice} {s s' s'' : Store}

theorem ends_pure (a : α) : Ends exec c (Pure.pure a : Prog Call Reply ε α) s a s :=
  ⟨0, [], fun _ => rfl⟩

theorem ends_perform (e : Call) :
    Ends exec c (perform e : Prog Call Reply ε (Reply e)) s (exec e c s).1 (exec e c s).2 :=
  ⟨1, [⟨e, (exec e c s).1⟩], fun _ => rfl⟩

theorem Ends.bind {p : Prog Call Reply ε α} {f : α → Prog Call Reply ε β} {a : α} {b : β}
    (hp : Ends exec c p s a s') (hf : Ends exec c (f a) s' b s'') :
    Ends exec c (p >>= f) s b s'' := by
  obtain ⟨k, h, hp⟩ := hp
  obtain ⟨k', h', hf⟩ := hf
  refine ⟨k + k', h ++ h', fun rest => ?_⟩
  rw [← List.replicate_append_replicate, List.append_assoc]
  exact solo_bind_of_ok (hp _) (hf rest)

end

/-! ### What a program does, over its history -/

/-- After the history `h`, every call of the program is one that `calls` admits, and it ends with
`result`. -/
def Wp (calls : History Call Reply → Call → Prop)
    (result : Except ε α → History Call Reply → Prop) :
    Prog Call Reply ε α → History Call Reply → Prop
  | .ret a, h => result (.ok a) h
  | .fail e, h => result (.error e) h
  | .call e k, h => calls h e ∧ ∀ r, Wp calls result (k r) (h ++ [⟨e, r⟩])

variable {calls : History Call Reply → Call → Prop} {h : History Call Reply}

@[simp] theorem wp_pure {result : Except ε α → History Call Reply → Prop} (a : α) :
    Wp calls result (pure a) h ↔ result (.ok a) h := Iff.rfl

@[simp] theorem wp_ret {result : Except ε α → History Call Reply → Prop} (a : α) :
    Wp calls result (.ret a) h ↔ result (.ok a) h := Iff.rfl

@[simp] theorem wp_fail {result : Except ε α → History Call Reply → Prop} (e : ε) :
    Wp calls result (.fail e) h ↔ result (.error e) h := Iff.rfl

@[simp] theorem wp_perform (e : Call) {result : Except ε (Reply e) → History Call Reply → Prop} :
    Wp calls result (perform e) h ↔ calls h e ∧ ∀ r, result (.ok r) (h ++ [⟨e, r⟩]) := Iff.rfl

@[simp] theorem wp_ofExcept {result : Except ε α → History Call Reply → Prop}
    (x : Except ε α) : Wp calls result (ofExcept x) h ↔ result x h := by
  cases x <;> rfl

/-- **The rule of sequence.** -/
@[simp] theorem wp_bind {result : Except ε β → History Call Reply → Prop}
    {f : α → Prog Call Reply ε β} (p : Prog Call Reply ε α) :
    Wp calls result (p >>= f) h ↔ Wp calls (fun r h => match r with
      | .ok a => Wp calls result (f a) h
      | .error e => result (.error e) h) p h := by
  induction p generalizing h with
  | ret a => exact Iff.rfl
  | fail e => exact Iff.rfl
  | call e k ih => exact and_congr Iff.rfl (forall_congr' fun r => ih r)

@[simp] theorem wp_map {result : Except ε β → History Call Reply → Prop} (f : α → β)
    (p : Prog Call Reply ε α) :
    Wp calls result (f <$> p) h ↔ Wp calls (fun r h => result (r.map f) h) p h := by
  induction p generalizing h with
  | ret a => exact Iff.rfl
  | fail e => exact Iff.rfl
  | call e k ih => exact and_congr Iff.rfl (forall_congr' fun r => ih r)

@[simp] theorem wp_attempt {result : Except ε (Except ε α) → History Call Reply → Prop}
    (p : Prog Call Reply ε α) :
    Wp calls result p.attempt h ↔ Wp calls (fun r h => result (.ok r) h) p h := by
  induction p generalizing h with
  | ret a => exact Iff.rfl
  | fail e => exact Iff.rfl
  | call e k ih => exact and_congr Iff.rfl (forall_congr' fun r => ih r)

@[simp] theorem wp_result {ε' : Type}
    {result : Except ε' (Except ε α) → History Call Reply → Prop} (p : Prog Call Reply ε α) :
    Wp calls result p.result h ↔ Wp calls (fun r h => result (.ok r) h) p h := by
  induction p generalizing h with
  | ret a => exact Iff.rfl
  | fail e => exact Iff.rfl
  | call e k ih => exact and_congr Iff.rfl (forall_congr' fun r => ih r)

/-- Every call of the program is in `P`. -/
def Within (P : Call → Prop) : Prog Call Reply ε α → Prop
  | .ret _ => True
  | .fail _ => True
  | .call e k => P e ∧ ∀ r, Within P (k r)

theorem Within.bind {P : Call → Prop} {p : Prog Call Reply ε α} {f : α → Prog Call Reply ε β}
    (hp : Within P p) (hf : ∀ a, Within P (f a)) : Within P (p >>= f) := by
  induction p with
  | ret a => exact hf a
  | fail e => exact trivial
  | call e k ih => exact ⟨hp.1, fun r => ih r (hp.2 r)⟩

theorem within_of_forall {P : Call → Prop} (hP : ∀ e, P e) (p : Prog Call Reply ε α) :
    Within P p := by
  induction p with
  | ret a => exact trivial
  | fail e => exact trivial
  | call e k ih => exact ⟨hP e, ih⟩

theorem Within.map {P : Call → Prop} {p : Prog Call Reply ε α} (hp : Within P p) (f : α → β) :
    Within P (f <$> p) := by
  induction p with
  | ret a => exact trivial
  | fail e => exact trivial
  | call e k ih => exact ⟨hp.1, fun r => ih r (hp.2 r)⟩

theorem Within.attempt {P : Call → Prop} {p : Prog Call Reply ε α} (hp : Within P p) :
    Within P p.attempt := by
  induction p with
  | ret a => exact trivial
  | fail e => exact trivial
  | call e k ih => exact ⟨hp.1, fun r => ih r (hp.2 r)⟩

theorem within_ofExcept {P : Call → Prop} (x : Except ε α) :
    Within P (ofExcept x : Prog Call Reply ε α) := by
  cases x <;> exact trivial

/-- A program whose calls are all admitted adds some of them to the history, and no others. -/
theorem Within.wp {P : Call → Prop} {result : Except ε α → History Call Reply → Prop}
    {p : Prog Call Reply ε α} (hp : Within P p) (hcalls : ∀ h e, P e → calls h e)
    (hresult : ∀ r new, (∀ s ∈ new, P s.1) → result r (h ++ new)) : Wp calls result p h := by
  induction p generalizing h with
  | ret a => simpa using hresult (.ok a) [] (by simp)
  | fail e => simpa using hresult (.error e) [] (by simp)
  | call e k ih =>
    refine ⟨hcalls h e hp.1, fun r => ih r (hp.2 r) fun res new hnew => ?_⟩
    rw [List.append_assoc]
    refine hresult res _ fun s hs => ?_
    rcases List.mem_cons.mp hs with rfl | hs
    · exact hp.1
    · exact hnew s hs

/-- What the admitted calls keep of the store, the program keeps. -/
theorem Within.solo {Store Choice : Type} {exec : (e : Call) → Choice → Store → Reply e × Store}
    {P : Call → Prop} {R : Store → Store → Prop} (hrefl : ∀ s, R s s)
    (htrans : ∀ {s s' s''}, R s s' → R s' s'' → R s s'')
    (hexec : ∀ e c s, P e → R s (exec e c s).2) {p : Prog Call Reply ε α} (hp : Within P p)
    {cs : List Choice} {s : Store} {run : Solo Call Reply ε α Store Choice}
    (h : p.solo exec cs s = some run) : R s run.store := by
  induction p generalizing cs s run with
  | ret a =>
    obtain rfl := Option.some.inj h
    exact hrefl s
  | fail e =>
    obtain rfl := Option.some.inj h
    exact hrefl s
  | call e k ih =>
    cases cs with
    | nil => cases h
    | cons c cs =>
      obtain ⟨run', hrun', rfl⟩ := Option.map_eq_some_iff.mp h
      have hrest : R (exec e c s).2 run'.store := ih _ (hp.2 _) hrun'
      exact htrans (hexec e c s hp.1) hrest

/-- The rule of consequence. -/
theorem Wp.mono {result result' : Except ε α → History Call Reply → Prop}
    {p : Prog Call Reply ε α} (hp : Wp calls result p h)
    (himp : ∀ r h, result r h → result' r h) : Wp calls result' p h := by
  induction p generalizing h with
  | ret a => exact himp _ _ hp
  | fail e => exact himp _ _ hp
  | call e k ih => exact ⟨hp.1, fun r => ih r (hp.2 r)⟩

/-- The history of a program whose calls are in `P` grows by calls of `P`, also if it fails. -/
theorem Wp.within {P : Call → Prop} {result : Except ε α → History Call Reply → Prop}
    {p : Prog Call Reply ε α} (hp : Wp (fun _ e => P e) result p h)
    (hcalls : ∀ h e, P e → calls h e) :
    Wp calls (fun r h' => (∃ new, h' = h ++ new ∧ ∀ s ∈ new, P s.1) ∧ result r h') p h := by
  induction p generalizing h with
  | ret a => exact ⟨⟨[], (List.append_nil h).symm, by simp⟩, hp⟩
  | fail e => exact ⟨⟨[], (List.append_nil h).symm, by simp⟩, hp⟩
  | call e k ih =>
    refine ⟨hcalls h e hp.1, fun r => (ih r (hp.2 r)).mono ?_⟩
    rintro res h' ⟨⟨new, rfl, hnew⟩, hres⟩
    refine ⟨⟨⟨e, r⟩ :: new, List.append_assoc .., fun s hs => ?_⟩, hres⟩
    rcases List.mem_cons.mp hs with rfl | hs
    · exact hp.1
    · exact hnew s hs

/-! ### What a program does if it does not fail -/

/-- Every call of the program is one that `calls` admits, and a value that it returns has
`result`. -/
def Does (calls : History Call Reply → Call → Prop) (result : α → History Call Reply → Prop)
    (p : Prog Call Reply ε α) (h : History Call Reply) : Prop :=
  Wp calls (fun r h => ∀ a, r = .ok a → result a h) p h

@[simp] theorem does_pure {result : α → History Call Reply → Prop} (a : α) :
    Does calls result (pure a : Prog Call Reply ε α) h ↔ result a h :=
  ⟨fun hp => hp a rfl, fun hres _ heq => Except.ok.inj heq ▸ hres⟩

@[simp] theorem does_fail {result : α → History Call Reply → Prop} (e : ε) :
    Does calls result (.fail e) h ↔ True :=
  ⟨fun _ => trivial, fun _ _ heq => by cases heq⟩

@[simp] theorem does_ofExcept {result : α → History Call Reply → Prop} (x : Except ε α) :
    Does calls result (ofExcept x) h ↔ ∀ a, x = .ok a → result a h := wp_ofExcept x

@[simp] theorem does_perform (e : Call) {result : Reply e → History Call Reply → Prop} :
    Does calls result (perform e : Prog Call Reply ε (Reply e)) h ↔
      calls h e ∧ ∀ r, result r (h ++ [⟨e, r⟩]) :=
  and_congr Iff.rfl (forall_congr' fun _ => does_pure _)

/-- The rule of sequence. -/
@[simp] theorem does_bind {result : β → History Call Reply → Prop} {f : α → Prog Call Reply ε β}
    (p : Prog Call Reply ε α) :
    Does calls result (p >>= f) h ↔ Does calls (fun a => Does calls result (f a)) p h := by
  unfold Does
  rw [wp_bind]
  constructor
  · intro hp
    refine hp.mono fun r h hr a heq => ?_
    rw [heq] at hr
    exact hr
  · intro hp
    refine hp.mono fun r h hr => ?_
    cases r with
    | ok a => exact hr a rfl
    | error e => exact fun _ heq => by cases heq

/-- The rule of consequence. -/
theorem Does.mono {result result' : α → History Call Reply → Prop} {p : Prog Call Reply ε α}
    (hp : Does calls result p h) (himp : ∀ a h, result a h → result' a h) :
    Does calls result' p h :=
  Wp.mono hp fun _ h hr a heq => himp a h (hr a heq)

/-- The result of a program is of no concern. -/
theorem Does.result {ε' : Type} {p : Prog Call Reply ε α}
    (hp : Does calls (fun _ _ => True) p h) :
    Does calls (fun _ _ => True) (p.result : Prog Call Reply ε' (Except ε α)) h :=
  (wp_result p).mpr (Wp.mono hp fun _ _ _ _ _ => trivial)

/-- What holds of every end of a program holds of a run of it. -/
theorem Wp.solo {Store Choice : Type} {exec : (e : Call) → Choice → Store → Reply e × Store}
    {result : Except ε α → History Call Reply → Prop} {p : Prog Call Reply ε α}
    (hp : Wp calls result p h) {cs : List Choice} {s : Store}
    {run : Solo Call Reply ε α Store Choice} (hrun : p.solo exec cs s = some run) :
    result run.result (h ++ run.history) := by
  induction p generalizing h cs s run with
  | ret a =>
    obtain rfl := Option.some.inj hrun
    show result (.ok a) (h ++ [])
    rwa [List.append_nil]
  | fail e =>
    obtain rfl := Option.some.inj hrun
    show result (.error e) (h ++ [])
    rwa [List.append_nil]
  | call e k ih =>
    cases cs with
    | nil => cases hrun
    | cons c cs =>
      obtain ⟨run', hrun', rfl⟩ := Option.map_eq_some_iff.mp hrun
      have hresult := ih _ (hp.2 _) hrun'
      rwa [List.append_assoc] at hresult

theorem Does.wp {p : Prog Call Reply ε α} {result : α → History Call Reply → Prop}
    (hp : Does calls result p h) : Wp calls (fun _ _ => True) p h :=
  Wp.mono hp fun _ _ _ => trivial

end Prog

/-! ### Systems -/

/-- What the tasks do and what their calls do. -/
structure System (Call : Type) (Reply : Call → Type) (Err Result Task Store Choice : Type) where
  body : Task → Prog Call Reply Err Result
  exec : (e : Call) → Choice → Store → Reply e × Store
  spawned : Call → Option Task

/-- What the log records, with the number of the task that did it.  A started task has the number
of the task that spawned it, if one did. -/
inductive Event (Call : Type) (Reply : Call → Type) (Err Result Task : Type) : Type where
  | start (i : ℕ) (t : Task) (parent : Option ℕ)
  | call (i : ℕ) (e : Call) (r : Reply e)
  | finish (i : ℕ) (result : Except Err Result)
  | abort (i : ℕ)

/-- The task of an event. -/
def Event.task {Call : Type} {Reply : Call → Type} {Err Result Task : Type} :
    Event Call Reply Err Result Task → ℕ
  | .start i _ _ => i
  | .call i _ _ => i
  | .finish i _ => i
  | .abort i => i

/-- The store and the log. -/
structure World (Call : Type) (Reply : Call → Type) (Err Result Task Store : Type) where
  store : Store
  log : List (Event Call Reply Err Result Task)

/-- The world and the tasks; an ended task is `none`. -/
structure Config (Call : Type) (Reply : Call → Type) (Err Result Task Store : Type) where
  world : World Call Reply Err Result Task Store
  tasks : List (Option (Prog Call Reply Err Result))

/-- One entry of a schedule: a new task arrives, a task makes its next step, or a task is dropped
where it stands (its connection broke or the server went down). -/
inductive Action (Task Choice : Type) : Type where
  | arrive (t : Task)
  | run (i : ℕ) (c : Choice)
  | abort (i : ℕ)

section

variable {Call : Type} {Reply : Call → Type} {Err Result Task Store Choice : Type}

namespace World

variable (w : World Call Reply Err Result Task Store)

/-- Add events to the log. -/
def add (evs : List (Event Call Reply Err Result Task)) : World Call Reply Err Result Task Store :=
  { w with log := w.log ++ evs }

@[simp] theorem add_store (evs : List (Event Call Reply Err Result Task)) :
    (w.add evs).store = w.store := rfl

@[simp] theorem add_log (evs : List (Event Call Reply Err Result Task)) :
    (w.add evs).log = w.log ++ evs := rfl

/-- The history of task `i` in a log. -/
def historyOf (i : ℕ) : List (Event Call Reply Err Result Task) → History Call Reply
  | [] => []
  | .call j e r :: log => if j = i then ⟨e, r⟩ :: historyOf i log else historyOf i log
  | _ :: log => historyOf i log

/-- The calls that task `i` has made. -/
def history (i : ℕ) : History Call Reply := historyOf i w.log

/-- No event of task `i` is in the log. -/
def Fresh (i : ℕ) : Prop := ∀ ev ∈ w.log, ev.task ≠ i

/-- Task `i` was started as `t`. -/
def Started (i : ℕ) (t : Task) : Prop := ∃ parent, .start i t parent ∈ w.log

/-- Task `i` has ended. -/
def Ended (i : ℕ) : Prop := (∃ r, .finish i r ∈ w.log) ∨ .abort i ∈ w.log

variable {w}

theorem historyOf_append (i : ℕ) (l₁ l₂ : List (Event Call Reply Err Result Task)) :
    historyOf i (l₁ ++ l₂) = historyOf i l₁ ++ historyOf i l₂ := by
  induction l₁ with
  | nil => rfl
  | cons ev l₁ ih =>
    cases ev with
    | call j e r =>
      rw [List.cons_append, historyOf, historyOf]
      split_ifs
      · rw [ih, List.cons_append]
      · exact ih
    | start j t parent => exact ih
    | finish j r => exact ih
    | abort j => exact ih

theorem mem_historyOf {i : ℕ} {e : Call} {r : Reply e}
    {log : List (Event Call Reply Err Result Task)} :
    ⟨e, r⟩ ∈ historyOf i log ↔ .call i e r ∈ log := by
  induction log with
  | nil => simp [historyOf]
  | cons ev log ih =>
    cases ev with
    | call j e' r' =>
      rw [historyOf]
      split_ifs with hji
      · rw [List.mem_cons, List.mem_cons, ih, hji]
        refine or_congr ?_ Iff.rfl
        rw [Sigma.mk.injEq, Event.call.injEq]
        exact ⟨fun h => ⟨rfl, h⟩, fun h => h.2⟩
      · rw [ih, List.mem_cons]
        refine ⟨Or.inr, ?_⟩
        rintro (h | h)
        · exact absurd (Event.call.inj h).1.symm hji
        · exact h
    | start j t parent => simp [historyOf, ih]
    | finish j r => simp [historyOf, ih]
    | abort j => simp [historyOf, ih]

/-- A call in a task's history is in the log. -/
theorem mem_history {i : ℕ} {e : Call} {r : Reply e} :
    ⟨e, r⟩ ∈ w.history i ↔ .call i e r ∈ w.log := mem_historyOf

theorem Fresh.history {i : ℕ} (h : w.Fresh i) : w.history i = [] := by
  rw [List.eq_nil_iff_forall_not_mem]
  rintro ⟨e, r⟩ hmem
  exact h _ (mem_history.mp hmem) rfl

theorem history_add (i : ℕ) (evs : List (Event Call Reply Err Result Task)) :
    (w.add evs).history i = w.history i ++ historyOf i evs := historyOf_append ..

end World

namespace System

variable (S : System Call Reply Err Result Task Store Choice)

/-- The task that task `i` spawns, as number `n`, by the call `e`. -/
def spawnEvents (i n : ℕ) (e : Call) : List (Event Call Reply Err Result Task) :=
  match S.spawned e with
  | none => []
  | some t => [.start n t (some i)]

/-- The world after task `i` made the call `e`; `n` is the number of a task that it spawns. -/
def after (i n : ℕ) (e : Call) (c : Choice) (w : World Call Reply Err Result Task Store) :
    World Call Reply Err Result Task Store :=
  ⟨(S.exec e c w.store).2, w.log ++ .call i e (S.exec e c w.store).1 :: S.spawnEvents i n e⟩

/-- The calls in the log are those before and the new one. -/
theorem call_mem_after {i j n : ℕ} {e e' : Call} {r : Reply e'} {c : Choice}
    {w : World Call Reply Err Result Task Store} :
    .call j e' r ∈ (S.after i n e c w).log ↔
      .call j e' r ∈ w.log ∨ (.call j e' r : Event Call Reply Err Result Task)
        = .call i e (S.exec e c w.store).1 := by
  rw [after, List.mem_append, List.mem_cons]
  refine or_congr Iff.rfl ⟨fun h => ?_, .inl⟩
  rcases h with h | h
  · exact h
  · unfold spawnEvents at h
    split at h
    · cases h
    · cases List.mem_singleton.mp h

theorem mem_after_of_mem {i n : ℕ} {e : Call} {c : Choice}
    {w : World Call Reply Err Result Task Store} {ev : Event Call Reply Err Result Task}
    (h : ev ∈ w.log) : ev ∈ (S.after i n e c w).log := List.mem_append_left _ h

/-- The tasks in the log are those before and the one that the call spawned. -/
theorem start_mem_after {i j n : ℕ} {e : Call} {t : Task} {parent : Option ℕ} {c : Choice}
    {w : World Call Reply Err Result Task Store} :
    .start j t parent ∈ (S.after i n e c w).log ↔
      .start j t parent ∈ w.log ∨ S.spawned e = some t ∧ j = n ∧ parent = some i := by
  rw [after, List.mem_append, List.mem_cons]
  refine or_congr Iff.rfl ?_
  unfold spawnEvents
  cases S.spawned e with
  | none => simp
  | some t' =>
    rw [List.mem_singleton, Option.some.injEq, Event.start.injEq]
    exact ⟨fun h => (h.resolve_left nofun).elim fun hj h => ⟨h.1.symm, hj, h.2⟩,
      fun h => .inr ⟨h.2.1, h.1.symm, h.2.2⟩⟩

/-- The other events in the log are those before. -/
theorem mem_after_iff {i n : ℕ} {e : Call} {c : Choice}
    {w : World Call Reply Err Result Task Store} {ev : Event Call Reply Err Result Task}
    (hcall : ∀ j e r, ev ≠ .call j e r) (hstart : ∀ j t parent, ev ≠ .start j t parent) :
    ev ∈ (S.after i n e c w).log ↔ ev ∈ w.log := by
  rw [after, List.mem_append, List.mem_cons]
  refine or_iff_left fun h => ?_
  rcases h with h | h
  · exact hcall _ _ _ h
  · unfold spawnEvents at h
    split at h
    · cases h
    · exact hstart _ _ _ (List.mem_singleton.mp h)

/-- A call ends no task. -/
theorem ended_after {i j n : ℕ} {e : Call} {c : Choice}
    {w : World Call Reply Err Result Task Store} : (S.after i n e c w).Ended j ↔ w.Ended j :=
  or_congr (exists_congr fun _ => S.mem_after_iff (by simp) (by simp))
    (S.mem_after_iff (by simp) (by simp))

/-- A call is added to the history of its task. -/
theorem history_after (i n j : ℕ) (e : Call) (c : Choice)
    (w : World Call Reply Err Result Task Store) :
    (S.after i n e c w).history j
      = w.history j ++ if j = i then [⟨e, (S.exec e c w.store).1⟩] else [] := by
  have hspawn : World.historyOf j (S.spawnEvents i n e) = [] := by
    unfold spawnEvents
    split <;> rfl
  rw [World.history, after, World.historyOf_append, World.historyOf, hspawn]
  split_ifs with h1 h2 h2
  · rfl
  · exact absurd h1.symm h2
  · exact absurd h2.symm h1
  · rfl

/-- The programs of the spawned tasks. -/
def spawnPrograms (e : Call) : List (Option (Prog Call Reply Err Result)) :=
  match S.spawned e with
  | none => []
  | some t => [some (S.body t)]

/-- One step of the schedule, with the event it is; `none` if there is no such step. -/
def step (cfg : Config Call Reply Err Result Task Store) :
    Action Task Choice →
      Option (Event Call Reply Err Result Task × Config Call Reply Err Result Task Store)
  | .arrive t =>
    let ev := .start cfg.tasks.length t none
    some (ev, ⟨cfg.world.add [ev], cfg.tasks ++ [some (S.body t)]⟩)
  | .run i c =>
    match cfg.tasks[i]? with
    | some (some (.call e k)) =>
      let reply := (S.exec e c cfg.world.store).1
      some (.call i e reply, ⟨S.after i cfg.tasks.length e c cfg.world,
        cfg.tasks.set i (some (k reply)) ++ S.spawnPrograms e⟩)
    | some (some (.ret a)) =>
      some (.finish i (.ok a), ⟨cfg.world.add [.finish i (.ok a)], cfg.tasks.set i none⟩)
    | some (some (.fail e)) =>
      some (.finish i (.error e), ⟨cfg.world.add [.finish i (.error e)], cfg.tasks.set i none⟩)
    | _ => none
  | .abort i =>
    match cfg.tasks[i]? with
    | some (some _) => some (.abort i, ⟨cfg.world.add [.abort i], cfg.tasks.set i none⟩)
    | _ => none

/-- Run a schedule; `none` if it has a step that there is not or that `check` does not admit. -/
def run (check : World Call Reply Err Result Task Store →
      Event Call Reply Err Result Task → Bool) :
    List (Action Task Choice) → Config Call Reply Err Result Task Store →
      Option (Config Call Reply Err Result Task Store)
  | [], cfg => some cfg
  | a :: rest, cfg =>
    match S.step cfg a with
    | none => none
    | some (ev, next) => if check cfg.world ev then run check rest next else none

/-- Nothing has happened yet. -/
def initial (store : Store) : Config Call Reply Err Result Task Store := ⟨⟨store, []⟩, []⟩

/-- `Reach S allowed cfg cfg'`: a schedule leads from `cfg` to `cfg'` and every step of it is one
that `allowed` admits in the world before the step. -/
inductive Reach (allowed : World Call Reply Err Result Task Store →
      Event Call Reply Err Result Task → Prop)
    (cfg : Config Call Reply Err Result Task Store) :
    Config Call Reply Err Result Task Store → Prop
  | refl : Reach allowed cfg cfg
  | step {mid next : Config Call Reply Err Result Task Store} {a : Action Task Choice}
      {ev : Event Call Reply Err Result Task} :
      Reach allowed cfg mid → S.step mid a = some (ev, next) → allowed mid.world ev →
      Reach allowed cfg next

variable {S}
variable {allowed : World Call Reply Err Result Task Store →
  Event Call Reply Err Result Task → Prop}

theorem Reach.trans {a b c : Config Call Reply Err Result Task Store}
    (hab : S.Reach allowed a b) (hbc : S.Reach allowed b c) : S.Reach allowed a c := by
  induction hbc with
  | refl => exact hab
  | step _ hstep hallowed ih => exact ih.step hstep hallowed

/-- Fewer admitted steps, fewer runs. -/
theorem Reach.mono {allowed' : World Call Reply Err Result Task Store →
      Event Call Reply Err Result Task → Prop}
    (himp : ∀ w ev, allowed w ev → allowed' w ev)
    {cfg cfg' : Config Call Reply Err Result Task Store} (h : S.Reach allowed cfg cfg') :
    S.Reach allowed' cfg cfg' := by
  induction h with
  | refl => exact .refl
  | step _ hstep hallowed ih => exact ih.step hstep (himp _ _ hallowed)

/-- A schedule that runs through is a run. -/
theorem reach_of_run {check : World Call Reply Err Result Task Store →
      Event Call Reply Err Result Task → Bool}
    (hcheck : ∀ w ev, check w ev = true → allowed w ev) :
    ∀ (actions : List (Action Task Choice)) {cfg cfg' : Config Call Reply Err Result Task Store},
    S.run check actions cfg = some cfg' → S.Reach allowed cfg cfg' := by
  intro actions
  induction actions with
  | nil =>
    intro cfg cfg' h
    cases h
    exact .refl
  | cons a rest ih =>
    intro cfg cfg' h
    rw [run] at h
    split at h
    · cases h
    · rename_i ev next hstep
      split_ifs at h with hc
      exact Reach.trans (Reach.refl.step hstep (hcheck _ _ hc)) (ih h)

end System

/-! ### Invariants -/

/-- What the tasks do by themselves: the calls that a task makes after a history, and how it
ends. -/
structure Spec (Call : Type) (Reply : Call → Type) (Err Result Task : Type) where
  calls : Task → History Call Reply → Call → Prop
  result : Task → Except Err Result → History Call Reply → Prop

/-- The tasks keep to their specification. -/
def System.Meets (S : System Call Reply Err Result Task Store Choice)
    (spec : Spec Call Reply Err Result Task) : Prop :=
  ∀ t, (S.body t).Wp (spec.calls t) (spec.result t) []

namespace World

/-- What holds of every log: no two tasks have one number, and an event of a task comes after its
start. -/
structure Wf (w : World Call Reply Err Result Task Store) : Prop where
  start_unique : ∀ {i t t' parent parent'}, .start i t parent ∈ w.log →
    .start i t' parent' ∈ w.log → t = t' ∧ parent = parent'
  started : ∀ {ev}, ev ∈ w.log → ∃ t, w.Started ev.task t

/-- Task `i` runs as `t`. -/
structure Running (w : World Call Reply Err Result Task Store) (i : ℕ) (t : Task) : Prop where
  started : w.Started i t
  not_ended : ¬w.Ended i

variable {w : World Call Reply Err Result Task Store}

theorem Wf.started_unique (hwf : w.Wf) {i : ℕ} {t t' : Task} (h : w.Started i t)
    (h' : w.Started i t') : t = t' := by
  obtain ⟨_, h⟩ := h
  obtain ⟨_, h'⟩ := h'
  exact (hwf.start_unique h h').1

end World

namespace System

variable (S : System Call Reply Err Result Task Store Choice)
variable (spec : Spec Call Reply Err Result Task)
variable (allowed : World Call Reply Err Result Task Store →
  Event Call Reply Err Result Task → Prop)

/-- Every step from a world with `I` keeps `J`. -/
structure Preserves (I J : World Call Reply Err Result Task Store → Prop) : Prop where
  start : ∀ {w i t}, w.Wf → I w → J w → w.Fresh i → allowed w (.start i t none) →
    J (w.add [.start i t none])
  call : ∀ {w i n t e c}, w.Wf → I w → J w → w.Running i t → w.Fresh n →
    spec.calls t (w.history i) e → allowed w (.call i e (S.exec e c w.store).1) →
    J (S.after i n e c w)
  finish : ∀ {w i t r}, w.Wf → I w → J w → w.Running i t → spec.result t r (w.history i) →
    allowed w (.finish i r) → J (w.add [.finish i r])
  abort : ∀ {w i t}, w.Wf → I w → J w → w.Running i t → allowed w (.abort i) →
    J (w.add [.abort i])

end System

/-- What holds of the tasks in every state of a run. -/
structure Spec.Good (spec : Spec Call Reply Err Result Task)
    (cfg : Config Call Reply Err Result Task Store) : Prop where
  wf : cfg.world.Wf
  task_lt : ∀ ev ∈ cfg.world.log, ev.task < cfg.tasks.length
  running : ∀ i p, cfg.tasks[i]? = some (some p) → ∃ t, cfg.world.Running i t ∧
    p.Wp (spec.calls t) (spec.result t) (cfg.world.history i)

namespace World

variable {w : World Call Reply Err Result Task Store}

theorem historyOf_eq_nil {i : ℕ} {evs : List (Event Call Reply Err Result Task)}
    (hevs : ∀ ev ∈ evs, ev.task ≠ i) : historyOf i evs = [] := by
  rw [List.eq_nil_iff_forall_not_mem]
  rintro ⟨e, r⟩ hmem
  exact hevs _ (mem_historyOf.mp hmem) rfl

/-- Events of other tasks leave a task as it is. -/
theorem Running.add {i : ℕ} {t : Task} {s : Store}
    {evs : List (Event Call Reply Err Result Task)} (h : w.Running i t)
    (hevs : ∀ ev ∈ evs, ev.task = i → ∃ e r, ev = .call i e r) :
    Running ⟨s, w.log ++ evs⟩ i t where
  started := by
    obtain ⟨parent, hparent⟩ := h.started
    exact ⟨parent, List.mem_append_left _ hparent⟩
  not_ended := by
    rintro (⟨r, hr⟩ | habort)
    · rcases List.mem_append.mp hr with hr | hr
      · exact h.not_ended (.inl ⟨r, hr⟩)
      · obtain ⟨_, _, hev⟩ := hevs _ hr rfl
        cases hev
    · rcases List.mem_append.mp habort with habort | habort
      · exact h.not_ended (.inr habort)
      · obtain ⟨_, _, hev⟩ := hevs _ habort rfl
        cases hev

/-- A task that runs after events that did not start it ran before them. -/
theorem Running.of_append {i : ℕ} {t : Task} {s : Store}
    {evs : List (Event Call Reply Err Result Task)} (h : Running ⟨s, w.log ++ evs⟩ i t)
    (hevs : ∀ t parent, .start i t parent ∉ evs) : w.Running i t where
  started := by
    obtain ⟨parent, hparent⟩ := h.started
    rcases List.mem_append.mp hparent with hmem | hmem
    · exact ⟨parent, hmem⟩
    · exact absurd hmem (hevs t parent)
  not_ended := by
    rintro (⟨r, hr⟩ | habort)
    · exact h.not_ended (.inl ⟨r, List.mem_append_left _ hr⟩)
    · exact h.not_ended (.inr (List.mem_append_left _ habort))

theorem Started.add {i : ℕ} {t : Task} {s : Store}
    {evs : List (Event Call Reply Err Result Task)} (h : w.Started i t) :
    Started ⟨s, w.log ++ evs⟩ i t :=
  h.imp fun _ hparent => List.mem_append_left _ hparent

/-- A new task keeps the log well-formed. -/
theorem Wf.add_start (hwf : w.Wf) {n : ℕ} (hn : w.Fresh n) (t : Task) (parent : Option ℕ) :
    (w.add [.start n t parent]).Wf where
  start_unique := by
    intro i t₁ t₂ p₁ p₂ h₁ h₂
    rcases List.mem_append.mp h₁ with h₁ | h₁ <;> rcases List.mem_append.mp h₂ with h₂ | h₂
    · exact hwf.start_unique h₁ h₂
    · exact absurd (Event.start.inj (List.mem_singleton.mp h₂)).1 (hn _ h₁)
    · exact absurd (Event.start.inj (List.mem_singleton.mp h₁)).1 (hn _ h₂)
    · obtain ⟨-, rfl, rfl⟩ := Event.start.inj (List.mem_singleton.mp h₁)
      obtain ⟨-, rfl, rfl⟩ := Event.start.inj (List.mem_singleton.mp h₂)
      exact ⟨rfl, rfl⟩
  started := by
    intro ev hev
    rcases List.mem_append.mp hev with hev | hev
    · exact (hwf.started hev).imp fun _ => Started.add
    · rw [List.mem_singleton.mp hev]
      exact ⟨t, parent, List.mem_append_right _ (List.mem_singleton_self _)⟩

/-- Another event of a started task keeps the log well-formed. -/
theorem Wf.add_event (hwf : w.Wf) {i : ℕ} {t : Task} {s : Store}
    {ev : Event Call Reply Err Result Task} (hi : w.Started i t) (hev : ev.task = i)
    (hstart : ∀ j t parent, ev ≠ .start j t parent) : Wf ⟨s, w.log ++ [ev]⟩ where
  start_unique := by
    have hold {i t parent} (h : .start i t parent ∈ w.log ++ [ev]) :
        .start i t parent ∈ w.log := by
      rcases List.mem_append.mp h with h | h
      · exact h
      · exact absurd (List.mem_singleton.mp h).symm (hstart _ _ _)
    intro i t₁ t₂ p₁ p₂ h₁ h₂
    exact hwf.start_unique (hold h₁) (hold h₂)
  started := by
    intro ev' hev'
    rcases List.mem_append.mp hev' with hev' | hev'
    · exact (hwf.started hev').imp fun _ => Started.add
    · rw [List.mem_singleton.mp hev', hev]
      exact ⟨t, hi.add⟩

end World

namespace System

variable {S : System Call Reply Err Result Task Store Choice}
variable {spec : Spec Call Reply Err Result Task}
variable {allowed : World Call Reply Err Result Task Store →
  Event Call Reply Err Result Task → Prop}
variable {cfg : Config Call Reply Err Result Task Store}

theorem Good.fresh (h : spec.Good cfg) : cfg.world.Fresh cfg.tasks.length :=
  fun ev hev => Nat.ne_of_lt (h.task_lt ev hev)

/-- A new task joins. -/
theorem Good.start (hS : S.Meets spec) (h : spec.Good cfg) (t : Task) (parent : Option ℕ) :
    spec.Good ⟨cfg.world.add [.start cfg.tasks.length t parent],
      cfg.tasks ++ [some (S.body t)]⟩ where
  wf := h.wf.add_start (Good.fresh h) t parent
  task_lt := by
    intro ev hev
    rw [List.length_append, List.length_singleton]
    rcases List.mem_append.mp hev with hev | hev
    · exact Nat.lt_succ_of_lt (h.task_lt ev hev)
    · rw [List.mem_singleton.mp hev]
      exact Nat.lt_succ_self _
  running := by
    intro i p hp
    rw [List.getElem?_append] at hp
    split_ifs at hp with hi
    · obtain ⟨t', hrun, hwp⟩ := h.running i p hp
      have hne : ∀ ev ∈ [(.start cfg.tasks.length t parent : Event Call Reply Err Result Task)],
          ev.task ≠ i := by
        intro ev hev
        rw [List.mem_singleton.mp hev]
        exact Nat.ne_of_gt hi
      refine ⟨t', hrun.add fun ev hev htask => absurd htask (hne ev hev), ?_⟩
      rwa [World.history_add, World.historyOf_eq_nil hne, List.append_nil]
    · obtain ⟨hlen, hbody⟩ := List.getElem?_eq_some_iff.mp hp
      obtain rfl : i = cfg.tasks.length := by
        rw [List.length_singleton] at hlen
        omega
      obtain rfl : S.body t = p := by simpa using hbody
      refine ⟨t, ⟨⟨parent, List.mem_append_right _ (List.mem_singleton_self _)⟩, ?_⟩, ?_⟩
      · rintro (⟨r, hr⟩ | habort)
        · rcases List.mem_append.mp hr with hr | hr
          · exact Good.fresh h _ hr rfl
          · cases List.mem_singleton.mp hr
        · rcases List.mem_append.mp habort with habort | habort
          · exact Good.fresh h _ habort rfl
          · cases List.mem_singleton.mp habort
      · rw [World.history_add, (Good.fresh h).history]
        exact hS t

/-- Task `i` makes an event and is left with the program `next`. -/
theorem Good.event (h : spec.Good cfg) {i : ℕ} {t : Task} {s : Store}
    {ev : Event Call Reply Err Result Task} {next : Option (Prog Call Reply Err Result)}
    (hi : i < cfg.tasks.length) (hrun : cfg.world.Running i t) (hev : ev.task = i)
    (hstart : ∀ j t parent, ev ≠ .start j t parent)
    (hnext : ∀ p, next = some p → World.Running ⟨s, cfg.world.log ++ [ev]⟩ i t ∧
      p.Wp (spec.calls t) (spec.result t)
        (World.history ⟨s, cfg.world.log ++ [ev]⟩ i)) :
    spec.Good ⟨⟨s, cfg.world.log ++ [ev]⟩, cfg.tasks.set i next⟩ where
  wf := h.wf.add_event hrun.started hev hstart
  task_lt := by
    intro ev' hev'
    rw [List.length_set]
    rcases List.mem_append.mp hev' with hev' | hev'
    · exact h.task_lt ev' hev'
    · rw [List.mem_singleton.mp hev', hev]
      exact hi
  running := by
    intro j p hp
    rw [List.getElem?_set] at hp
    split_ifs at hp with hij
    · obtain rfl := hij
      exact ⟨t, hnext p (Option.some.inj hp)⟩
    · obtain ⟨t', hrun', hwp⟩ := h.running j p hp
      have hne : ∀ ev' ∈ [ev], ev'.task ≠ j := by
        intro ev' hev'
        rw [List.mem_singleton.mp hev', hev]
        exact hij
      refine ⟨t', hrun'.add fun ev' hev' htask => absurd htask (hne ev' hev'), ?_⟩
      rw [World.history, World.historyOf_append, World.historyOf_eq_nil hne, List.append_nil]
      exact hwp

/-- **One step** keeps the tasks to their specification and, with it, every preserved `J`. -/
theorem Good.step (hS : S.Meets spec) {I J : World Call Reply Err Result Task Store → Prop}
    (hJ : S.Preserves spec allowed I J) {next : Config Call Reply Err Result Task Store}
    {a : Action Task Choice} {ev : Event Call Reply Err Result Task} (h : spec.Good cfg)
    (hI : I cfg.world) (hcfg : J cfg.world) (hstep : S.step cfg a = some (ev, next))
    (hallowed : allowed cfg.world ev) : spec.Good next ∧ J next.world := by
  cases a with
  | arrive t =>
    obtain ⟨rfl, rfl⟩ := Prod.mk.inj (Option.some.inj hstep)
    exact ⟨Good.start hS h t none, hJ.start h.wf hI hcfg (Good.fresh h) hallowed⟩
  | abort i =>
    rw [System.step] at hstep
    split at hstep
    · rename_i p hp
      obtain ⟨rfl, rfl⟩ := Prod.mk.inj (Option.some.inj hstep)
      obtain ⟨t, hrun, -⟩ := h.running i p hp
      have hi := (List.getElem?_eq_some_iff.mp hp).1
      exact ⟨Good.event h hi hrun rfl (by simp) (by simp), hJ.abort h.wf hI hcfg hrun hallowed⟩
    · cases hstep
  | run i c =>
    rw [System.step] at hstep
    split at hstep
    · rename_i e k hp
      obtain ⟨rfl, rfl⟩ := Prod.mk.inj (Option.some.inj hstep)
      obtain ⟨t, hrun, hcalls, hwp⟩ := h.running i _ hp
      have hi := (List.getElem?_eq_some_iff.mp hp).1
      refine ⟨?_, hJ.call h.wf hI hcfg hrun (Good.fresh h) hcalls hallowed⟩
      have hmid : spec.Good ⟨⟨(S.exec e c cfg.world.store).2,
          cfg.world.log ++ [.call i e (S.exec e c cfg.world.store).1]⟩,
          cfg.tasks.set i (some (k (S.exec e c cfg.world.store).1))⟩ := by
        refine Good.event h hi hrun rfl (by simp) fun p hp' => ⟨hrun.add ?_, ?_⟩
        · intro ev hev _
          exact ⟨_, _, List.mem_singleton.mp hev⟩
        · rw [World.history, World.historyOf_append, ← Option.some.inj hp']
          simpa [World.historyOf, World.history] using hwp _
      unfold after spawnEvents spawnPrograms
      cases S.spawned e with
      | none => simpa using hmid
      | some t' =>
        have := Good.start hS hmid t' (some i)
        rw [List.length_set] at this
        simpa [World.add] using this
    · rename_i r hp
      obtain ⟨rfl, rfl⟩ := Prod.mk.inj (Option.some.inj hstep)
      obtain ⟨t, hrun, hwp⟩ := h.running i _ hp
      have hi := (List.getElem?_eq_some_iff.mp hp).1
      exact ⟨Good.event h hi hrun rfl (by simp) (by simp),
        hJ.finish h.wf hI hcfg hrun hwp hallowed⟩
    · rename_i r hp
      obtain ⟨rfl, rfl⟩ := Prod.mk.inj (Option.some.inj hstep)
      obtain ⟨t, hrun, hwp⟩ := h.running i _ hp
      have hi := (List.getElem?_eq_some_iff.mp hp).1
      exact ⟨Good.event h hi hrun rfl (by simp) (by simp),
        hJ.finish h.wf hI hcfg hrun hwp hallowed⟩
    · cases hstep

theorem good_initial (store : Store) : spec.Good
    (initial store : Config Call Reply Err Result Task Store) where
  wf := ⟨fun h => absurd h List.not_mem_nil, fun h => absurd h List.not_mem_nil⟩
  task_lt := fun _ h => absurd h List.not_mem_nil
  running := fun i p hp => by simp [initial] at hp

/-- What is preserved is preserved together. -/
theorem Preserves.and {I J K : World Call Reply Err Result Task Store → Prop}
    (hJ : S.Preserves spec allowed I J) (hK : S.Preserves spec allowed (fun w => I w ∧ J w) K) :
    S.Preserves spec allowed I (fun w => J w ∧ K w) where
  start hwf hI h hn ha := ⟨hJ.start hwf hI h.1 hn ha, hK.start hwf ⟨hI, h.1⟩ h.2 hn ha⟩
  call hwf hI h hrun hn hcalls ha :=
    ⟨hJ.call hwf hI h.1 hrun hn hcalls ha, hK.call hwf ⟨hI, h.1⟩ h.2 hrun hn hcalls ha⟩
  finish hwf hI h hrun hres ha :=
    ⟨hJ.finish hwf hI h.1 hrun hres ha, hK.finish hwf ⟨hI, h.1⟩ h.2 hrun hres ha⟩
  abort hwf hI h hrun ha := ⟨hJ.abort hwf hI h.1 hrun ha, hK.abort hwf ⟨hI, h.1⟩ h.2 hrun ha⟩

/-- What the other events keep is preserved if the calls preserve it. -/
theorem Preserves.of_call {I J : World Call Reply Err Result Task Store → Prop}
    (hadd : ∀ w ev, (∀ i e r, ev ≠ .call i e r) → J w → J (w.add [ev]))
    (hcall : ∀ {w i n t e c}, w.Wf → I w → J w → w.Running i t → spec.calls t (w.history i) e →
      allowed w (.call i e (S.exec e c w.store).1) → J (S.after i n e c w)) :
    S.Preserves spec allowed I J where
  start _ _ h _ _ := hadd _ _ (by simp) h
  call hwf hI h hrun _ hcalls ha := hcall hwf hI h hrun hcalls ha
  finish _ _ h _ _ _ := hadd _ _ (by simp) h
  abort _ _ h _ _ := hadd _ _ (by simp) h

/-- What is preserved holds in every state of a run from a state with it. -/
theorem Preserves.reach_from (hS : S.Meets spec)
    {J : World Call Reply Err Result Task Store → Prop}
    (hJ : S.Preserves spec allowed (fun _ => True) J)
    {cfg₀ : Config Call Reply Err Result Task Store} (hgood : spec.Good cfg₀)
    (hcfg₀ : J cfg₀.world) (hreach : S.Reach allowed cfg₀ cfg) : spec.Good cfg ∧ J cfg.world := by
  induction hreach with
  | refl => exact ⟨hgood, hcfg₀⟩
  | step _ hstep hallowed ih => exact Good.step hS hJ ih.1 trivial ih.2 hstep hallowed

/-- **Invariants**: what holds at the start and is preserved holds in every state of every run. -/
theorem Preserves.reach (hS : S.Meets spec) {J : World Call Reply Err Result Task Store → Prop}
    (hJ : S.Preserves spec allowed (fun _ => True) J) {store : Store} (hinit : J ⟨store, []⟩)
    (hreach : S.Reach allowed (initial store) cfg) : spec.Good cfg ∧ J cfg.world :=
  hJ.reach_from hS (good_initial store) hinit hreach

theorem Reach.good (hS : S.Meets spec) {store : Store}
    (hreach : S.Reach allowed (initial store) cfg) : spec.Good cfg := by
  have hJ : S.Preserves spec allowed (fun _ => True) (fun _ => True) :=
    .of_call (fun _ _ _ _ => trivial) fun _ _ _ _ _ _ => trivial
  exact (hJ.reach hS trivial hreach).1

/-- The log of a run is well formed. -/
theorem Reach.wf (hS : S.Meets spec) {store : Store}
    (hreach : S.Reach allowed (initial store) cfg) : cfg.world.Wf := (hreach.good hS).wf

/-- **What a finished task has done**: it ended as its specification says. -/
theorem Reach.finished (hS : S.Meets spec) {store : Store}
    (hreach : S.Reach allowed (initial store) cfg) {i : ℕ} {r : Except Err Result}
    (h : .finish i r ∈ cfg.world.log) :
    ∃ t, cfg.world.Started i t ∧ spec.result t r (cfg.world.history i) := by
  have hadd {w : World Call Reply Err Result Task Store} {ev : Event Call Reply Err Result Task}
      (hev : ∀ i e r, ev ≠ .call i e r) {i : ℕ} {r : Except Err Result}
      (h : ∃ t, w.Started i t ∧ spec.result t r (w.history i)) :
      ∃ t, (w.add [ev]).Started i t ∧ spec.result t r ((w.add [ev]).history i) := by
    obtain ⟨t, ⟨parent, hstart⟩, hresult⟩ := h
    refine ⟨t, ⟨parent, List.mem_append_left _ hstart⟩, ?_⟩
    rw [World.history_add]
    cases ev with
    | call j e r => exact absurd rfl (hev j e r)
    | _ => exact (List.append_nil (w.history i)).symm ▸ hresult
  have hJ : S.Preserves spec allowed (fun _ => True) fun w => ∀ i r, .finish i r ∈ w.log →
      ∃ t, w.Started i t ∧ spec.result t r (w.history i) := by
    constructor
    · intro w n t hwf _ h _ _ i r hfinish
      exact hadd (by simp) (h i r (by simpa using hfinish))
    · intro w j n t e c hwf _ h hrun _ _ _ i r hfinish
      have hfinish : .finish i r ∈ w.log :=
        (S.mem_after_iff (by simp) (by simp)).mp hfinish
      obtain ⟨t', ⟨parent, hstart⟩, hresult⟩ := h i r hfinish
      refine ⟨t', ⟨parent, S.mem_after_of_mem hstart⟩, ?_⟩
      -- a task that ended does not run
      have hij : i ≠ j := fun heq => hrun.not_ended (heq ▸ .inl ⟨r, hfinish⟩)
      rwa [S.history_after, if_neg hij, List.append_nil]
    · intro w j t r' hwf _ h hrun hresult _ i r hfinish
      rcases List.mem_append.mp hfinish with hfinish | hfinish
      · exact hadd (by simp) (h i r hfinish)
      · obtain ⟨rfl, rfl⟩ := Event.finish.inj (List.mem_singleton.mp hfinish)
        exact hadd (by simp) ⟨t, hrun.started, hresult⟩
    · intro w j t hwf _ h _ _ i r hfinish
      exact hadd (by simp) (h i r (by simpa using hfinish))
  exact (hJ.reach hS (fun _ _ h => absurd h List.not_mem_nil) hreach).2 i r h

/-! ### The past of a run -/

/-- The events of a step follow the log; after the first they are starts of spawned tasks. -/
theorem step_log {a : Action Task Choice} {ev : Event Call Reply Err Result Task}
    {next : Config Call Reply Err Result Task Store} (h : S.step cfg a = some (ev, next)) :
    ∃ evs, next.world.log = cfg.world.log ++ ev :: evs ∧
      ∀ ev' ∈ evs, ∃ i t parent, ev' = .start i t parent := by
  cases a with
  | arrive t =>
    obtain ⟨rfl, rfl⟩ := Prod.mk.inj (Option.some.inj h)
    exact ⟨[], rfl, by simp⟩
  | abort i =>
    rw [System.step] at h
    split at h
    · obtain ⟨rfl, rfl⟩ := Prod.mk.inj (Option.some.inj h)
      exact ⟨[], rfl, by simp⟩
    · cases h
  | run i c =>
    rw [System.step] at h
    split at h
    · obtain ⟨rfl, rfl⟩ := Prod.mk.inj (Option.some.inj h)
      refine ⟨_, rfl, fun ev' hev' => ?_⟩
      unfold spawnEvents at hev'
      split at hev'
      · cases hev'
      · exact ⟨_, _, _, List.mem_singleton.mp hev'⟩
    · obtain ⟨rfl, rfl⟩ := Prod.mk.inj (Option.some.inj h)
      exact ⟨[], rfl, by simp⟩
    · obtain ⟨rfl, rfl⟩ := Prod.mk.inj (Option.some.inj h)
      exact ⟨[], rfl, by simp⟩
    · cases h

/-- The log only grows. -/
theorem Reach.log {cfg' : Config Call Reply Err Result Task Store}
    (h : S.Reach allowed cfg cfg') : ∃ evs, cfg'.world.log = cfg.world.log ++ evs := by
  induction h with
  | refl => exact ⟨[], (List.append_nil _).symm⟩
  | step _ hstep _ ih =>
    obtain ⟨evs, hevs⟩ := ih
    obtain ⟨new, hnew, -⟩ := step_log hstep
    exact ⟨_, by rw [hnew, hevs, List.append_assoc]⟩

theorem Reach.mem_log {cfg' : Config Call Reply Err Result Task Store}
    {ev : Event Call Reply Err Result Task} (h : S.Reach allowed cfg cfg')
    (hev : ev ∈ cfg.world.log) : ev ∈ cfg'.world.log := by
  obtain ⟨evs, hevs⟩ := h.log
  rw [hevs]
  exact List.mem_append_left _ hev

/-- The run went through the step of each event of its log (the start of a spawned task is part of
the step that spawns it). -/
theorem Reach.past {store : Store} (hreach : S.Reach allowed (initial store) cfg)
    {pre post : List (Event Call Reply Err Result Task)} {ev : Event Call Reply Err Result Task}
    (hlog : cfg.world.log = pre ++ ev :: post) (hev : ∀ i t parent, ev ≠ .start i t parent) :
    ∃ mid a next, S.Reach allowed (initial store) mid ∧ mid.world.log = pre ∧
      S.step mid a = some (ev, next) ∧ allowed mid.world ev ∧ S.Reach allowed next cfg := by
  induction hreach generalizing pre post with
  | refl => simp [initial] at hlog
  | @step mid next a ev' hmid hstep hallowed ih =>
    obtain ⟨evs, hnext, hspawned⟩ := step_log hstep
    rw [hnext] at hlog
    -- the event is in the log before the step, it is the step, or it starts a spawned task
    rcases List.append_eq_append_iff.mp hlog with ⟨xs, hpre, hxs⟩ | ⟨xs, hold, hxs⟩
    · cases xs with
      | nil =>
        obtain ⟨rfl, -⟩ := List.cons.inj hxs
        rw [List.append_nil] at hpre
        exact ⟨mid, a, next, hmid, hpre.symm, hstep, hallowed, .refl⟩
      | cons x xs =>
        obtain ⟨-, rfl⟩ := List.cons.inj hxs
        obtain ⟨i, t, parent, heq⟩ := hspawned ev (by simp)
        exact absurd heq (hev i t parent)
    · cases xs with
      | nil =>
        obtain ⟨rfl, -⟩ := List.cons.inj hxs
        rw [List.append_nil] at hold
        exact ⟨mid, a, next, hmid, hold, hstep, hallowed, .refl⟩
      | cons x xs =>
        obtain ⟨rfl, -⟩ := List.cons.inj hxs
        obtain ⟨mid', a', next', hmid', hlog', hstep', hallowed', hrest⟩ := ih hold
        exact ⟨mid', a', next', hmid', hlog', hstep', hallowed', hrest.step hstep hallowed⟩

/-- The step of a call. -/
theorem step_call {a : Action Task Choice} {i : ℕ} {e : Call} {r : Reply e}
    {next : Config Call Reply Err Result Task Store}
    (h : S.step cfg a = some (.call i e r, next)) :
    ∃ c k, cfg.tasks[i]? = some (some (.call e k)) ∧ r = (S.exec e c cfg.world.store).1 ∧
      next.world = S.after i cfg.tasks.length e c cfg.world := by
  cases a with
  | arrive t => cases (Prod.mk.inj (Option.some.inj h)).1
  | abort j =>
    rw [System.step] at h
    split at h
    · cases (Prod.mk.inj (Option.some.inj h)).1
    · cases h
  | run j c =>
    rw [System.step] at h
    split at h
    · rename_i e' k hp
      obtain ⟨hev, hnext⟩ := Prod.mk.inj (Option.some.inj h)
      obtain ⟨rfl, rfl, hr⟩ := Event.call.inj hev
      exact ⟨c, k, hp, (eq_of_heq hr).symm, by rw [← hnext]⟩
    · cases (Prod.mk.inj (Option.some.inj h)).1
    · cases (Prod.mk.inj (Option.some.inj h)).1
    · cases h

/-- A task that ends did what its specification says. -/
theorem Good.finish_step (h : spec.Good cfg) {a : Action Task Choice} {i : ℕ}
    {r : Except Err Result} {next : Config Call Reply Err Result Task Store}
    (hstep : S.step cfg a = some (.finish i r, next)) :
    ∃ t, cfg.world.Running i t ∧ spec.result t r (cfg.world.history i) := by
  cases a with
  | arrive t => cases (Prod.mk.inj (Option.some.inj hstep)).1
  | abort j =>
    rw [System.step] at hstep
    split at hstep
    · cases (Prod.mk.inj (Option.some.inj hstep)).1
    · cases hstep
  | run j c =>
    rw [System.step] at hstep
    split at hstep
    · cases (Prod.mk.inj (Option.some.inj hstep)).1
    · rename_i a hp
      obtain ⟨rfl, rfl⟩ := Event.finish.inj (Prod.mk.inj (Option.some.inj hstep)).1
      exact h.running j _ hp
    · rename_i e hp
      obtain ⟨rfl, rfl⟩ := Event.finish.inj (Prod.mk.inj (Option.some.inj hstep)).1
      exact h.running j _ hp
    · cases hstep

/-- A step that changes the store is a call. -/
theorem step_store {a : Action Task Choice} {ev : Event Call Reply Err Result Task}
    {next : Config Call Reply Err Result Task Store} (h : S.step cfg a = some (ev, next)) :
    next.world.store = cfg.world.store ∨ ∃ i e c k, cfg.tasks[i]? = some (some (.call e k)) ∧
      ev = .call i e (S.exec e c cfg.world.store).1 ∧
      next.world.store = (S.exec e c cfg.world.store).2 := by
  cases a with
  | arrive t =>
    obtain ⟨rfl, rfl⟩ := Prod.mk.inj (Option.some.inj h)
    exact .inl rfl
  | abort j =>
    rw [System.step] at h
    split at h
    · obtain ⟨rfl, rfl⟩ := Prod.mk.inj (Option.some.inj h)
      exact .inl rfl
    · cases h
  | run j c =>
    rw [System.step] at h
    split at h
    · rename_i e k hp
      obtain ⟨rfl, rfl⟩ := Prod.mk.inj (Option.some.inj h)
      exact .inr ⟨j, e, c, k, hp, rfl, rfl⟩
    · obtain ⟨rfl, rfl⟩ := Prod.mk.inj (Option.some.inj h)
      exact .inl rfl
    · obtain ⟨rfl, rfl⟩ := Prod.mk.inj (Option.some.inj h)
      exact .inl rfl
    · cases h

/-- Task `i`, which runs as `t`, made the call `e` in the state `mid`, was answered `r`, and the run
went on to `cfg`. -/
structure Made (S : System Call Reply Err Result Task Store Choice)
    (spec : Spec Call Reply Err Result Task)
    (allowed : World Call Reply Err Result Task Store → Event Call Reply Err Result Task → Prop)
    (mid : Config Call Reply Err Result Task Store) (i : ℕ) (t : Task) (e : Call) (r : Reply e)
    (c : Choice) (cfg : Config Call Reply Err Result Task Store) : Prop where
  running : mid.world.Running i t
  calls : spec.calls t (mid.world.history i) e
  reply : r = (S.exec e c mid.world.store).1
  admitted : allowed mid.world (.call i e r)
  rest : ∃ n a next, S.step mid a = some (.call i e r, next) ∧
    next.world = S.after i n e c mid.world ∧ S.Reach allowed next cfg

/-- **The past of a call**: a call of the log was made in a state of the run. -/
theorem Reach.made (hS : S.Meets spec) {store : Store}
    (hreach : S.Reach allowed (initial store) cfg)
    {pre post : List (Event Call Reply Err Result Task)} {i : ℕ} {e : Call} {r : Reply e}
    (hlog : cfg.world.log = pre ++ .call i e r :: post) :
    ∃ mid t c, S.Reach allowed (initial store) mid ∧ mid.world.log = pre ∧
      Made S spec allowed mid i t e r c cfg := by
  obtain ⟨mid, a, next, hmid, hpre, hstep, hallowed, hrest⟩ := hreach.past hlog (by simp)
  obtain ⟨c, k, hp, hreply, hnext⟩ := step_call hstep
  obtain ⟨t, hrun, hcalls, -⟩ := (hmid.good hS).running i _ hp
  exact ⟨mid, t, c, hmid, hpre, hrun, hcalls, hreply, hallowed, _, a, next, hstep, hnext, hrest⟩

/-- A task that never makes a call of `P` after another makes at most one. -/
theorem Reach.once (hS : S.Meets spec) {store : Store}
    (hreach : S.Reach allowed (initial store) cfg) {P : Call → Prop}
    (hP : ∀ t h e, spec.calls t h e → P e → ∀ s ∈ h, ¬P s.1) {i : ℕ} {e e' : Call} {r : Reply e}
    {r' : Reply e'} (h : .call i e r ∈ cfg.world.log) (he : P e)
    (h' : .call i e' r' ∈ cfg.world.log) (he' : P e') :
    (.call i e r : Event Call Reply Err Result Task) = .call i e' r' := by
  -- the call that comes second has the first in its history
  have hsecond {e e' : Call} {r : Reply e} {r' : Reply e'}
      {pre post : List (Event Call Reply Err Result Task)}
      (hlog : cfg.world.log = pre ++ .call i e r :: post) (he : P e) (he' : P e') :
      Event.call i e' r' ∉ pre := by
    intro hmem
    obtain ⟨mid, t, c, -, hpre, hmade⟩ := hreach.made hS hlog
    refine hP _ _ _ hmade.calls he ⟨e', r'⟩ ?_ he'
    rwa [World.mem_history, hpre]
  obtain ⟨pre, post, hlog⟩ := List.append_of_mem h
  rw [hlog] at h'
  rcases List.mem_append.mp h' with h' | h'
  · exact absurd h' (hsecond hlog he he')
  · rcases List.mem_cons.mp h' with h' | h'
    · exact h'.symm
    · obtain ⟨mid, post', rfl⟩ := List.append_of_mem h'
      have hlog' : cfg.world.log = (pre ++ .call i e r :: mid) ++ .call i e' r' :: post' := by
        rw [hlog, List.append_assoc, List.cons_append]
      exact absurd (List.mem_append_right _ (List.mem_cons_self ..)) (hsecond hlog' he' he)

/-- A task makes no call after it ended. -/
theorem Reach.not_mem_of_ended (hS : S.Meets spec) {store : Store}
    (hreach : S.Reach allowed (initial store) cfg)
    {pre post : List (Event Call Reply Err Result Task)} (hlog : cfg.world.log = pre ++ post)
    {i : ℕ} (hended : (∃ r, .finish i r ∈ pre) ∨ .abort i ∈ pre) {e : Call} {r : Reply e} :
    .call i e r ∉ post := by
  intro hmem
  obtain ⟨mid, rest, rfl⟩ := List.append_of_mem hmem
  rw [← List.append_assoc] at hlog
  obtain ⟨before, t, c, -, hpre, hmade⟩ := hreach.made hS hlog
  refine hmade.running.not_ended ?_
  unfold World.Ended
  rw [hpre]
  rcases hended with ⟨r, hr⟩ | habort
  · exact .inl ⟨r, List.mem_append_left _ hr⟩
  · exact .inr (List.mem_append_left _ habort)

/-- What every call keeps of the store, a run keeps. -/
theorem Reach.store {R : Store → Store → Prop} (hrefl : ∀ s, R s s)
    (htrans : ∀ {s s' s''}, R s s' → R s' s'' → R s s'')
    (hexec : ∀ i e c w, allowed w (.call i e (S.exec e c w.store).1) →
      R w.store (S.exec e c w.store).2) {cfg' : Config Call Reply Err Result Task Store}
    (h : S.Reach allowed cfg cfg') : R cfg.world.store cfg'.world.store := by
  induction h with
  | refl => exact hrefl _
  | @step mid next a ev _ hstep hallowed ih =>
    refine htrans ih ?_
    cases a with
    | arrive t =>
      obtain ⟨rfl, rfl⟩ := Prod.mk.inj (Option.some.inj hstep)
      exact hrefl _
    | abort j =>
      rw [System.step] at hstep
      split at hstep
      · obtain ⟨rfl, rfl⟩ := Prod.mk.inj (Option.some.inj hstep)
        exact hrefl _
      · cases hstep
    | run j c =>
      rw [System.step] at hstep
      split at hstep
      · obtain ⟨rfl, rfl⟩ := Prod.mk.inj (Option.some.inj hstep)
        exact hexec _ _ _ _ hallowed
      · obtain ⟨rfl, rfl⟩ := Prod.mk.inj (Option.some.inj hstep)
        exact hrefl _
      · obtain ⟨rfl, rfl⟩ := Prod.mk.inj (Option.some.inj hstep)
        exact hrefl _
      · cases hstep

/-! ### Starts -/

/-- A list that ends with `x`, cut before one of its members. -/
theorem concat_eq_append_cons {α : Type} {l before after : List α} {x y : α}
    (h : l ++ [x] = before ++ y :: after) :
    (after = [] ∧ before = l ∧ y = x) ∨
      ∃ after', after = after' ++ [x] ∧ l = before ++ y :: after' := by
  rcases List.eq_nil_or_concat' after with rfl | ⟨after', z, rfl⟩
  · left
    obtain ⟨hl, hx⟩ := List.append_inj' h rfl
    exact ⟨rfl, hl.symm, (List.singleton_inj.mp hx).symm⟩
  · right
    have h' : l ++ [x] = (before ++ y :: after') ++ [z] := by
      rw [h, List.append_assoc, List.cons_append]
    obtain ⟨hl, hx⟩ := List.append_inj' h' rfl
    exact ⟨after', by rw [List.singleton_inj.mp hx], hl⟩

/-- No event of a task comes before its start. -/
def StartsFirst (log : List (Event Call Reply Err Result Task)) : Prop :=
  ∀ before j t parent after, log = before ++ .start j t parent :: after →
    ∀ ev ∈ before, ev.task ≠ j

/-- One more event; if it is a start, its task is new. -/
theorem StartsFirst.concat {log : List (Event Call Reply Err Result Task)} (h : StartsFirst log)
    {ev : Event Call Reply Err Result Task}
    (hnew : ∀ j t parent, ev = .start j t parent → ∀ ev' ∈ log, ev'.task ≠ j) :
    StartsFirst (log ++ [ev]) := by
  intro before j t parent after hlog
  rcases concat_eq_append_cons hlog with ⟨-, rfl, heq⟩ | ⟨after', -, hold⟩
  · exact hnew j t parent heq.symm
  · exact h before j t parent after' hold

theorem Reach.startsFirst (hS : S.Meets spec) {store : Store}
    (hreach : S.Reach allowed (initial store) cfg) : StartsFirst cfg.world.log := by
  have hother {w : World Call Reply Err Result Task Store} {ev : Event Call Reply Err Result Task}
      (h : StartsFirst w.log) (hev : ∀ j t parent, ev ≠ .start j t parent) :
      StartsFirst (w.log ++ [ev]) :=
    h.concat fun j t parent heq => absurd heq (hev j t parent)
  have hJ : S.Preserves spec allowed (fun _ => True) fun w => StartsFirst w.log := by
    constructor
    · intro w i t _ _ h hfresh _
      refine h.concat fun j t' parent heq => ?_
      obtain ⟨rfl, -⟩ := Event.start.inj heq
      exact hfresh
    · intro w i n t e c _ _ h hrun hfresh _ _
      have hcall : StartsFirst (w.log ++ [.call i e (S.exec e c w.store).1]) :=
        hother h (by simp)
      show StartsFirst (w.log ++ .call i e (S.exec e c w.store).1 :: S.spawnEvents i n e)
      rw [List.append_cons]
      unfold spawnEvents
      cases S.spawned e with
      | none =>
        show StartsFirst (_ ++ [])
        rwa [List.append_nil]
      | some t' =>
        refine hcall.concat fun j t'' parent heq ev' hev' => ?_
        obtain ⟨rfl, -⟩ := Event.start.inj heq
        rcases List.mem_append.mp hev' with hev' | hev'
        · exact hfresh ev' hev'
        · obtain ⟨parent', hstart⟩ := hrun.started
          rw [List.mem_singleton.mp hev']
          show i ≠ n
          exact hfresh (.start i t parent') hstart
    · intro w i t r _ _ h _ _ _
      exact hother h (by simp)
    · intro w i t _ _ h _ _
      exact hother h (by simp)
  refine (hJ.reach hS (fun before j t parent after hlog => ?_) hreach).2
  exact absurd hlog.symm (by simp)

/-- What a task does comes after its start. -/
theorem Reach.mem_of_started (hS : S.Meets spec) {store : Store}
    (hreach : S.Reach allowed (initial store) cfg)
    {before after : List (Event Call Reply Err Result Task)}
    (hlog : cfg.world.log = before ++ after)
    {j : ℕ} {t : Task} {parent : Option ℕ} (hstart : .start j t parent ∈ after)
    {ev : Event Call Reply Err Result Task} (hev : ev ∈ cfg.world.log) (htask : ev.task = j) :
    ev ∈ after := by
  obtain ⟨first, last, rfl⟩ := List.append_of_mem hstart
  rw [← List.append_assoc] at hlog
  have hfirst := hreach.startsFirst hS _ j t parent last hlog
  rw [hlog] at hev
  rcases List.mem_append.mp hev with hev | hev
  · exact absurd htask (hfirst ev hev)
  · exact List.mem_append_right _ hev

end System

end

end Ostrich.Interleave
