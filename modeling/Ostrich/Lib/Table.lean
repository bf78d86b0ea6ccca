import Mathlib.Data.List.Nodup
import Mathlib.Tactic.Common

/-!
# Tables

A table of a database is the list of its rows.

* `updateWhere p f rows`: `UPDATE … SET f WHERE p`;
* `Unique key rows`: no two different rows have one key;
* `Evolves fixed rows rows'`: every row of `rows` is still in `rows'`, with the same value of
  `fixed` (the columns that are never written);
* `Follows R rows rows'`: every row of `rows` is still in `rows'`, as one that `R` relates to it;
* `Keeps key status final rows rows'`: a row whose status is final keeps it;
* `Change id name created updated rows rows'`: one statement on a table with two unique columns.

`Keyed key` is a table with a primary key: no two of its rows have one key.
-/

namespace Ostrich.Table

variable {α κ : Type}

/-- `UPDATE … SET f WHERE p`. -/
def updateWhere (p : α → Bool) (f : α → α) (rows : List α) : List α :=
  rows.map fun row => if p row then f row else row

theorem mem_updateWhere {p : α → Bool} {f : α → α} {rows : List α} {row : α} :
    row ∈ updateWhere p f rows ↔ ∃ old ∈ rows, row = if p old then f old else old := by
  rw [updateWhere, List.mem_map]
  exact exists_congr fun old => and_congr Iff.rfl eq_comm

/-- The row that is found after a statement that leaves what is looked for. -/
theorem find?_updateWhere {p q : α → Bool} {f : α → α} {rows : List α}
    (hq : ∀ row, q (if p row then f row else row) = q row) :
    (updateWhere p f rows).find? q
      = (rows.find? q).map fun row => if p row then f row else row := by
  unfold updateWhere
  rw [List.find?_map]
  exact congrArg _ (congrArg (List.find? · rows) (funext hq))

/-- No two different rows have one key. -/
def Unique (key : α → κ) (rows : List α) : Prop :=
  ∀ row ∈ rows, ∀ row' ∈ rows, key row = key row' → row = row'

theorem Unique.updateWhere {key : α → κ} {rows : List α} (h : Unique key rows) (p : α → Bool)
    {f : α → α} (hf : ∀ row, key (f row) = key row) : Unique key (updateWhere p f rows) := by
  intro row hrow row' hrow' hkey
  obtain ⟨old, hold, rfl⟩ := mem_updateWhere.mp hrow
  obtain ⟨old', hold', rfl⟩ := mem_updateWhere.mp hrow'
  have heq : old = old' := by
    refine h old hold old' hold' ?_
    split_ifs at hkey <;> simpa only [hf] using hkey
  rw [heq]

theorem Unique.insert {key : α → κ} {rows : List α} (h : Unique key rows) {new : α}
    (hnew : ∀ row ∈ rows, key row ≠ key new) : Unique key (rows ++ [new]) := by
  intro row hrow row' hrow' hkey
  rcases List.mem_append.mp hrow with hrow | hrow <;>
    rcases List.mem_append.mp hrow' with hrow' | hrow'
  · exact h row hrow row' hrow' hkey
  · rw [List.mem_singleton.mp hrow'] at hkey
    exact absurd hkey (hnew row hrow)
  · rw [List.mem_singleton.mp hrow] at hkey
    exact absurd hkey.symm (hnew row' hrow')
  · rw [List.mem_singleton.mp hrow, List.mem_singleton.mp hrow']

/-- The rows stay, and the columns `fixed` of them. -/
def Evolves (fixed : α → κ) (rows rows' : List α) : Prop :=
  ∀ row ∈ rows, ∃ row' ∈ rows', fixed row' = fixed row

theorem Evolves.refl (fixed : α → κ) (rows : List α) : Evolves fixed rows rows :=
  fun row hrow => ⟨row, hrow, rfl⟩

theorem Evolves.trans {fixed : α → κ} {rows rows' rows'' : List α} (h : Evolves fixed rows rows')
    (h' : Evolves fixed rows' rows'') : Evolves fixed rows rows'' := by
  intro row hrow
  obtain ⟨row', hrow', hfixed⟩ := h row hrow
  obtain ⟨row'', hrow'', hfixed'⟩ := h' row' hrow'
  exact ⟨row'', hrow'', hfixed'.trans hfixed⟩

theorem evolves_updateWhere {fixed : α → κ} (p : α → Bool) {f : α → α} (rows : List α)
    (hf : ∀ row, fixed (f row) = fixed row) : Evolves fixed rows (updateWhere p f rows) := by
  intro row hrow
  refine ⟨_, mem_updateWhere.mpr ⟨row, hrow, rfl⟩, ?_⟩
  split_ifs
  · exact hf row
  · rfl

theorem evolves_insert (fixed : α → κ) (rows : List α) (new : α) :
    Evolves fixed rows (rows ++ [new]) :=
  fun row hrow => ⟨row, List.mem_append_left _ hrow, rfl⟩

/-- The rows stay, each as one that `R` relates to it. -/
def Follows (R : α → α → Prop) (rows rows' : List α) : Prop :=
  ∀ row ∈ rows, ∃ row' ∈ rows', R row row'

theorem Follows.refl {R : α → α → Prop} (hR : ∀ row, R row row) (rows : List α) :
    Follows R rows rows :=
  fun row hrow => ⟨row, hrow, hR row⟩

theorem Follows.trans {R : α → α → Prop} (hR : ∀ {a b c}, R a b → R b c → R a c)
    {rows rows' rows'' : List α} (h : Follows R rows rows') (h' : Follows R rows' rows'') :
    Follows R rows rows'' := by
  intro row hrow
  obtain ⟨row', hrow', hR'⟩ := h row hrow
  obtain ⟨row'', hrow'', hR''⟩ := h' row' hrow'
  exact ⟨row'', hrow'', hR hR' hR''⟩

theorem follows_insert {R : α → α → Prop} (hR : ∀ row, R row row) (rows : List α) (new : α) :
    Follows R rows (rows ++ [new]) :=
  fun row hrow => ⟨row, List.mem_append_left _ hrow, hR row⟩

theorem follows_updateWhere {R : α → α → Prop} (hR : ∀ row, R row row) {p : α → Bool}
    {f : α → α} (hf : ∀ row, p row = true → R row (f row)) (rows : List α) :
    Follows R rows (updateWhere p f rows) := by
  intro row hrow
  refine ⟨_, mem_updateWhere.mpr ⟨row, hrow, rfl⟩, ?_⟩
  split_ifs with hp
  · exact hf row hp
  · exact hR row

/-- The row of a later table that has the key of a row follows it. -/
theorem Follows.of_key {R : α → α → Prop} {key : α → κ} {rows rows' : List α}
    (h : Follows R rows rows') (hkey : ∀ {a b}, R a b → key b = key a) (hu : Unique key rows')
    {row row' : α} (hrow : row ∈ rows) (hrow' : row' ∈ rows') (heq : key row' = key row) :
    R row row' := by
  obtain ⟨row'', hrow'', hR⟩ := h row hrow
  rwa [hu row' hrow' row'' hrow'' (heq.trans (hkey hR).symm)]

/-- The rows whose status is final stay, with their status. -/
def Keeps {σ : Type} (key : α → κ) (status : α → σ) (final : σ → Prop) (rows rows' : List α) :
    Prop :=
  ∀ row ∈ rows, final (status row) → (∃ row' ∈ rows', key row' = key row) ∧
    ∀ row' ∈ rows', key row' = key row → status row' = status row

theorem Keeps.trans {σ : Type} {key : α → κ} {status : α → σ} {final : σ → Prop}
    {rows rows' rows'' : List α} (h : Keeps key status final rows rows')
    (h' : Keeps key status final rows' rows'') : Keeps key status final rows rows'' := by
  intro row hrow hfinal
  obtain ⟨⟨row', hrow', hkey'⟩, hstatus⟩ := h row hrow hfinal
  have heq := hstatus row' hrow' hkey'
  obtain ⟨⟨row'', hrow'', hkey''⟩, hstatus'⟩ := h' row' hrow' (heq ▸ hfinal)
  refine ⟨⟨row'', hrow'', hkey''.trans hkey'⟩, fun r hr hkey => ?_⟩
  exact (hstatus' r hr (hkey.trans hkey'.symm)).trans heq

theorem keeps_refl {σ : Type} {key : α → κ} {rows : List α} (hu : Unique key rows) (status : α → σ)
    (final : σ → Prop) : Keeps key status final rows rows := by
  refine fun row hrow _ => ⟨⟨row, hrow, rfl⟩, fun row' hrow' hkey => ?_⟩
  rw [hu row' hrow' row hrow hkey]

/-! ### Statements -/

/-- What one statement does to a table with the unique columns `id` and `name`: nothing, the
insertion of a row with `created`, or an update with `updated`. -/
inductive Change {ι ν : Type} (id : α → ι) (name : α → ν) (created : α → Prop)
    (updated : (α → Bool) → (α → α) → Prop) (rows : List α) : List α → Prop
  | same : Change id name created updated rows rows
  | insert (row : α) (hcreated : created row) (hid : ∀ r ∈ rows, id r ≠ id row)
      (hname : ∀ r ∈ rows, name r ≠ name row) :
      Change id name created updated rows (rows ++ [row])
  | update (p : α → Bool) (f : α → α) (hupdated : updated p f) :
      Change id name created updated rows (updateWhere p f rows)

namespace Change

variable {ι ν : Type} {id : α → ι} {name : α → ν} {created : α → Prop}
variable {updated : (α → Bool) → (α → α) → Prop} {rows rows' : List α}

theorem unique (h : Change id name created updated rows rows')
    (hf : ∀ p f, updated p f → ∀ row, id (f row) = id row ∧ name (f row) = name row)
    (hu : Unique id rows ∧ Unique name rows) : Unique id rows' ∧ Unique name rows' := by
  cases h with
  | same => exact hu
  | insert row _ hid hname => exact ⟨hu.1.insert hid, hu.2.insert hname⟩
  | update p f hupdated =>
    exact ⟨hu.1.updateWhere p fun row => (hf p f hupdated row).1,
      hu.2.updateWhere p fun row => (hf p f hupdated row).2⟩

theorem evolves (h : Change id name created updated rows rows') {fixed : α → κ}
    (hf : ∀ p f, updated p f → ∀ row, fixed (f row) = fixed row) : Evolves fixed rows rows' := by
  cases h with
  | same => exact .refl fixed rows
  | insert row _ _ _ => exact evolves_insert fixed rows row
  | update p f hupdated => exact evolves_updateWhere p rows (hf p f hupdated)

/-- A statement keeps final statuses if its update does. -/
theorem keeps {σ : Type} {status : α → σ} {final : σ → Prop}
    (h : Change id name created updated rows rows') (hu : Unique id rows)
    (hid : ∀ p f, updated p f → ∀ row, id (f row) = id row)
    (hf : ∀ p f, updated p f → ∀ row ∈ rows, p row = true → final (status row) →
      status (f row) = status row) : Keeps id status final rows rows' := by
  cases h with
  | same => exact keeps_refl hu status final
  | insert new _ hnew _ =>
    refine fun row hrow _ => ⟨⟨row, List.mem_append_left _ hrow, rfl⟩, fun row' hrow' hkey => ?_⟩
    rcases List.mem_append.mp hrow' with hrow' | hrow'
    · rw [hu row' hrow' row hrow hkey]
    · rw [List.mem_singleton.mp hrow'] at hkey
      exact absurd hkey.symm (hnew row hrow)
  | update p f hupdated =>
    intro row hrow hfinal
    refine ⟨⟨_, mem_updateWhere.mpr ⟨row, hrow, rfl⟩, ?_⟩, fun row' hrow' hkey => ?_⟩
    · split_ifs
      · exact hid p f hupdated row
      · rfl
    · obtain ⟨old, hold, rfl⟩ := mem_updateWhere.mp hrow'
      have heq : old = row := by
        refine hu old hold row hrow ?_
        split_ifs at hkey
        · exact (hid p f hupdated old).symm.trans hkey
        · exact hkey
      subst heq
      split_ifs with hp
      · exact hf p f hupdated old hrow hp hfinal
      · rfl

end Change

/-! ### Tables with a key -/

/-- A table in which no two rows have one key. -/
structure Keyed (key : α → κ) where
  rows : List α
  nodup : (rows.map key).Nodup

namespace Keyed

variable {key : α → κ}

/-- The table without rows. -/
def empty (key : α → κ) : Keyed key := ⟨[], List.nodup_nil⟩

/-- Two rows with one key are one row. -/
theorem eq_of_key (t : Keyed key) {row row' : α} (hrow : row ∈ t.rows) (hrow' : row' ∈ t.rows)
    (h : key row = key row') : row = row' :=
  List.inj_on_of_nodup_map t.nodup hrow hrow' h

/-- Change the rows with `p` by `f`, which leaves their keys. -/
def modify (p : α → Bool) (f : α → α) (hf : ∀ row, key (f row) = key row) (t : Keyed key) :
    Keyed key where
  rows := updateWhere p f t.rows
  nodup := by
    have hkey : (updateWhere p f t.rows).map key = t.rows.map key := by
      rw [updateWhere, List.map_map]
      refine List.map_congr_left fun row _ => ?_
      show key (if p row then f row else row) = key row
      split_ifs
      · exact hf row
      · rfl
    rw [hkey]
    exact t.nodup

/-- Keep the rows with `p`. -/
def retain (p : α → Bool) (t : Keyed key) : Keyed key where
  rows := t.rows.filter p
  nodup := t.nodup.sublist (List.filter_sublist.map _)

section

variable [DecidableEq κ]

/-- Insert a row; `none` if its key is taken. -/
def insert? (row : α) (t : Keyed key) : Option (Keyed key) :=
  if h : key row ∈ t.rows.map key then none
  else some ⟨t.rows ++ [row], by
    rw [List.map_append, List.map_singleton, List.nodup_append]
    refine ⟨t.nodup, List.nodup_singleton _, fun k hk k' hk' heq => h ?_⟩
    rwa [← List.mem_singleton.mp hk', ← heq]⟩

theorem rows_of_insert? {row : α} {t t' : Keyed key} (h : t.insert? row = some t') :
    key row ∉ t.rows.map key ∧ t'.rows = t.rows ++ [row] := by
  unfold insert? at h
  split at h
  · cases h
  · rename_i hnew
    obtain rfl := Option.some.inj h
    exact ⟨hnew, rfl⟩

/-- Put a row in the place of the one with its key. -/
def put (row : α) (t : Keyed key) : Keyed key where
  rows := t.rows.filter (key · ≠ key row) ++ [row]
  nodup := by
    rw [List.map_append, List.map_singleton, List.nodup_append]
    refine ⟨t.nodup.sublist (List.filter_sublist.map _), List.nodup_singleton _, ?_⟩
    intro k hk k' hk' heq
    obtain ⟨row', hrow', rfl⟩ := List.mem_map.mp hk
    have hne := (List.mem_filter.mp hrow').2
    rw [heq, List.mem_singleton.mp hk'] at hne
    simp at hne

/-- A row with a new key is inserted where it would be put. -/
theorem insert?_eq_put {row : α} {t : Keyed key} (h : key row ∉ t.rows.map key) :
    t.insert? row = some (t.put row) := by
  have hrows : t.rows.filter (key · ≠ key row) = t.rows := by
    refine List.filter_eq_self.mpr fun row' hrow' => ?_
    exact decide_eq_true fun heq => h (heq ▸ List.mem_map_of_mem hrow')
  unfold insert? put
  rw [dif_neg h]
  simp only [hrows]

/-- Changing the one row with the key of `new` to `new` is putting `new`, up to the order. -/
theorem modify_perm_put {p : α → Bool} {f : α → α} {hf : ∀ row, key (f row) = key row} {new : α}
    {t : Keyed key} (hp : ∀ row ∈ t.rows, p row = decide (key row = key new))
    (hnew : ∃ row ∈ t.rows, key row = key new ∧ f row = new) :
    (t.modify p f hf).rows.Perm (t.put new).rows := by
  obtain ⟨row, hrow, hkey, hfrow⟩ := hnew
  obtain ⟨before, after, hsplit⟩ := List.append_of_mem hrow
  have hother {row' : α} (hmem : row' ∈ before ∨ row' ∈ after) : key row' ≠ key new := by
    intro heq
    have hnodup := t.nodup
    rw [hsplit, List.map_append, List.map_cons, List.nodup_append] at hnodup
    rw [← hkey] at heq
    rcases hmem with hmem | hmem
    · exact hnodup.2.2 _ (List.mem_map_of_mem hmem) _ (List.mem_cons_self ..) heq
    · exact (List.nodup_cons.mp hnodup.2.1).1 (heq ▸ List.mem_map_of_mem hmem)
  have hkeep {l : List α} (hl : ∀ row' ∈ l, row' ∈ t.rows ∧ key row' ≠ key new) :
      updateWhere p f l = l ∧ l.filter (key · ≠ key new) = l := by
    constructor
    · refine (List.map_congr_left fun row' hrow' => ?_).trans (List.map_id l)
      rw [hp row' (hl row' hrow').1, decide_eq_false (hl row' hrow').2]
      rfl
    · exact List.filter_eq_self.mpr fun row' hrow' => decide_eq_true (hl row' hrow').2
  obtain ⟨hbefore, hbefore'⟩ := hkeep (l := before) fun row' hrow' =>
    ⟨hsplit ▸ List.mem_append_left _ hrow', hother (.inl hrow')⟩
  obtain ⟨hafter, hafter'⟩ := hkeep (l := after) fun row' hrow' =>
    ⟨hsplit ▸ List.mem_append_right _ (List.mem_cons_of_mem _ hrow'), hother (.inr hrow')⟩
  have hmodify : (t.modify p f hf).rows = before ++ new :: after := by
    show updateWhere p f t.rows = _
    have hone : (if p row then f row else row) = new := by
      rw [hp row hrow, hkey, decide_eq_true rfl]
      exact hfrow
    unfold updateWhere at hbefore hafter ⊢
    rw [hsplit, List.map_append, List.map_cons, hbefore, hafter, hone]
  have hput : (t.put new).rows = before ++ after ++ [new] := by
    show t.rows.filter (key · ≠ key new) ++ [new] = _
    rw [hsplit, List.filter_append, List.filter_cons, hbefore', hafter', hkey]
    simp
  rw [hmodify, hput, List.append_assoc]
  exact (List.perm_append_singleton new after).symm.append_left before

/-- The row with the key. -/
def get (k : κ) (t : Keyed key) : Option α := t.rows.find? (key · = k)

theorem mem_of_get {k : κ} {t : Keyed key} {row : α} (h : t.get k = some row) :
    row ∈ t.rows ∧ key row = k := by
  have hkey := List.find?_some h
  exact ⟨List.mem_of_find?_eq_some h, of_decide_eq_true hkey⟩

theorem get_eq_some {k : κ} {t : Keyed key} {row : α} :
    t.get k = some row ↔ row ∈ t.rows ∧ key row = k := by
  refine ⟨mem_of_get, fun ⟨hrow, hkey⟩ => ?_⟩
  cases hget : t.get k with
  | none => exact absurd (List.find?_eq_none.mp hget row hrow) (by simp [hkey])
  | some row' =>
    obtain ⟨hrow', hkey'⟩ := mem_of_get hget
    rw [t.eq_of_key hrow hrow' (hkey.trans hkey'.symm)]

/-- The row after a change. -/
theorem get_modify {p : α → Bool} {f : α → α} {hf : ∀ row, key (f row) = key row} {k : κ}
    {t : Keyed key} :
    (t.modify p f hf).get k = (t.get k).map fun row => if p row then f row else row := by
  have hkey (row : α) : key (if p row then f row else row) = key row := by
    split_ifs
    · exact hf row
    · rfl
  refine find?_updateWhere fun row => ?_
  rw [hkey]

theorem not_mem_of_get {k : κ} {t : Keyed key} (h : t.get k = none) {row : α}
    (hrow : row ∈ t.rows) : key row ≠ k := by
  intro heq
  have hne := List.find?_eq_none.mp h row hrow
  rw [heq] at hne
  simp at hne

/-- The row after another was put. -/
theorem get_put {row : α} {k : κ} {t : Keyed key} :
    (t.put row).get k = if key row = k then some row else t.get k := by
  have hmem (row' : α) : row' ∈ (t.put row).rows ↔
      (row' ∈ t.rows ∧ key row' ≠ key row) ∨ row' = row := by
    unfold put
    simp [List.mem_filter]
  split_ifs with hkey
  · exact get_eq_some.mpr ⟨(hmem row).mpr (.inr rfl), hkey⟩
  · cases hget : t.get k with
    | some row' =>
      obtain ⟨hrow', rfl⟩ := get_eq_some.mp hget
      exact get_eq_some.mpr ⟨(hmem row').mpr (.inl ⟨hrow', fun heq => hkey heq.symm⟩), rfl⟩
    | none =>
      refine List.find?_eq_none.mpr fun row' hrow' => ?_
      rw [decide_eq_true_eq]
      rcases (hmem row').mp hrow' with hold | rfl
      · exact not_mem_of_get hget hold.1
      · exact hkey

end

end Keyed

end Ostrich.Table
