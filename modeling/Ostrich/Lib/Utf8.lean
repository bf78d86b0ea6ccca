import Mathlib.Data.Nat.Notation
import Mathlib.Tactic.SplitIfs

/-!
# UTF-8 bytes

`Utf8 bs` says that `bs` are the bytes of some text.  `Drops p l l'` says that `l'` is `l` without
some of the elements for which `p` holds; `Utf8.of_drops`: a text stays one without some of its
ASCII bytes.
-/

namespace Ostrich

/-! ### Leaving elements out -/

/-- `l'` is `l` without some of the elements for which `p` holds. -/
inductive Drops {α : Type*} (p : α → Prop) : List α → List α → Prop
  | nil : Drops p [] []
  | keep {a : α} {l l' : List α} : Drops p l l' → Drops p (a :: l) (a :: l')
  | drop {a : α} {l l' : List α} : p a → Drops p l l' → Drops p (a :: l) l'

namespace Drops

variable {α β : Type*} {p : α → Prop}

theorem rfl : ∀ {l : List α}, Drops p l l
  | [] => .nil
  | _ :: _ => .keep rfl

theorem append {l l' m m' : List α} (h : Drops p l l') (hm : Drops p m m') :
    Drops p (l ++ m) (l' ++ m') := by
  induction h with
  | nil => exact hm
  | keep _ ih => exact .keep ih
  | drop ha _ ih => exact .drop ha ih

theorem trans {l l' l'' : List α} (h : Drops p l l') (h' : Drops p l' l'') : Drops p l l'' := by
  induction h generalizing l'' with
  | nil => exact h'
  | keep _ ih =>
    cases h' with
    | keep h' => exact .keep (ih h')
    | drop ha h' => exact .drop ha (ih h')
  | drop ha _ ih => exact .drop ha (ih h')

theorem dropWhile (q : α → Bool) (hq : ∀ a, q a = true → p a) : ∀ l : List α,
    Drops p l (l.dropWhile q)
  | [] => .nil
  | a :: l => by
    by_cases ha : q a = true
    · rw [List.dropWhile_cons_of_pos ha]
      exact .drop (hq a ha) (dropWhile q hq l)
    · rw [List.dropWhile_cons_of_neg ha]
      exact rfl

theorem all {l : List α} (h : ∀ a ∈ l, p a) : Drops p l [] := by
  induction l with
  | nil => exact .nil
  | cons a l ih => exact .drop (h a (by simp)) (ih fun b hb => h b (List.mem_cons_of_mem a hb))

theorem map {q : β → Prop} (f : α → β) (hf : ∀ a, p a → q (f a)) {l l' : List α}
    (h : Drops p l l') : Drops q (l.map f) (l'.map f) := by
  induction h with
  | nil => exact .nil
  | keep _ ih => exact .keep ih
  | drop ha _ ih => exact .drop (hf _ ha) ih

theorem subset {l l' : List α} (h : Drops p l l') : ∀ a ∈ l', a ∈ l := by
  induction h with
  | nil => simp
  | keep _ ih =>
    intro b hb
    rcases List.mem_cons.1 hb with rfl | hb
    · exact List.mem_cons_self ..
    · exact List.mem_cons_of_mem _ (ih b hb)
  | drop _ _ ih => exact fun b hb => List.mem_cons_of_mem _ (ih b hb)

/-- What is never left out is kept, in order. -/
theorem filter (q : α → Bool) (hq : ∀ a, p a → q a = false) {l l' : List α} (h : Drops p l l') :
    l'.filter q = l.filter q := by
  induction h with
  | nil => exact Eq.refl _
  | @keep a _ _ _ ih =>
    cases ha : q a with
    | true => rw [List.filter_cons_of_pos ha, List.filter_cons_of_pos ha, ih]
    | false =>
      have hno : ¬ q a = true := by rw [ha]; exact Bool.false_ne_true
      rw [List.filter_cons_of_neg hno, List.filter_cons_of_neg hno, ih]
  | @drop a _ _ ha _ ih =>
    have hno : ¬ q a = true := by rw [hq a ha]; exact Bool.false_ne_true
    rw [List.filter_cons_of_neg hno, ih]

/-- A front of elements that must stay, stays. -/
theorem of_append : ∀ {l m n : List α}, (∀ a ∈ l, ¬ p a) → Drops p (l ++ m) n →
    ∃ m', n = l ++ m' ∧ Drops p m m'
  | [], m, n, _, h => ⟨n, Eq.refl _, h⟩
  | a :: l, m, n, hl, h => by
    cases h with
    | keep h =>
      obtain ⟨m', rfl, hm'⟩ := of_append (fun b hb => hl b (List.mem_cons_of_mem a hb)) h
      exact ⟨m', Eq.refl _, hm'⟩
    | drop ha _ => exact absurd ha (hl a (by simp))

end Drops

/-! ### Texts -/

/-- The bytes are those of a text. -/
def Utf8 (bs : List UInt8) : Prop := ∃ cs : List Char, bs = cs.flatMap String.utf8EncodeChar

/-- `from_utf8` accepts the bytes. -/
def validateUtf8 (bs : List UInt8) : Bool := bs.toByteArray.validateUTF8

theorem validateUtf8_iff {bs : List UInt8} : validateUtf8 bs = true ↔ Utf8 bs := by
  unfold validateUtf8 Utf8
  rw [ByteArray.validateUTF8_eq_true_iff]
  constructor
  · rintro ⟨cs, hcs⟩
    exact ⟨cs, List.toByteArray_inj.1 hcs⟩
  · rintro ⟨cs, rfl⟩
    exact ⟨cs, Eq.refl _⟩

/-- A character is one ASCII byte, or has no ASCII byte. -/
theorem utf8EncodeChar_ascii (c : Char) : (∃ b, String.utf8EncodeChar c = [b]) ∨
    ∀ b ∈ String.utf8EncodeChar c, ¬ b < 0x80 := by
  have hlarge : ∀ n, 0x80 ≤ n → n < 256 → ¬ UInt8.ofNat n < 0x80 := by
    intro n hlow hhigh hlt
    have hlt' : (UInt8.ofNat n).toNat < 0x80 := hlt
    rw [UInt8.toNat_ofNat_of_lt' hhigh] at hlt'
    omega
  unfold String.utf8EncodeChar
  dsimp only
  split_ifs
  · exact Or.inl ⟨_, rfl⟩
  · right
    intro b hb
    simp only [List.mem_cons, List.not_mem_nil, or_false] at hb
    rcases hb with rfl | rfl <;> exact hlarge _ (by omega) (by omega)
  · right
    intro b hb
    simp only [List.mem_cons, List.not_mem_nil, or_false] at hb
    rcases hb with rfl | rfl | rfl <;> exact hlarge _ (by omega) (by omega)
  · right
    intro b hb
    simp only [List.mem_cons, List.not_mem_nil, or_false] at hb
    rcases hb with rfl | rfl | rfl | rfl <;> exact hlarge _ (by omega) (by omega)

/-- **A text stays one without some of its ASCII bytes.** -/
theorem Utf8.of_drops {bs bs' : List UInt8} (hdrops : Drops (· < 0x80) bs bs') (h : Utf8 bs) :
    Utf8 bs' := by
  obtain ⟨cs, rfl⟩ := h
  induction cs generalizing bs' with
  | nil =>
    cases hdrops
    exact ⟨[], rfl⟩
  | cons c cs ih =>
    rw [List.flatMap_cons] at hdrops
    rcases utf8EncodeChar_ascii c with ⟨b, hb⟩ | hstay
    · rw [hb, List.singleton_append] at hdrops
      cases hdrops with
      | keep hrest =>
        obtain ⟨cs', rfl⟩ := ih hrest
        exact ⟨c :: cs', by rw [List.flatMap_cons, hb, List.singleton_append]⟩
      | drop _ hrest => exact ih hrest
    · obtain ⟨rest, rfl, hrest⟩ := hdrops.of_append hstay
      obtain ⟨cs', rfl⟩ := ih hrest
      exact ⟨c :: cs', by rw [List.flatMap_cons]⟩

end Ostrich
