import Mathlib.Data.UInt
import Mathlib.Tactic.Common

/-!
# JSON values

The values of `serde_json`, with the members of an object sorted by their keys.  `Members.get?`
looks a key up; `get?_insert` and `get?_remove` say what the changes of a map do to it.
-/

namespace Ostrich

/-- The bits of an `f64` that is a number. -/
abbrev FiniteF64 := { bits : UInt64 // (bits >>> 52) &&& 0x7FF ≠ 0x7FF }

/-- A JSON number: a `u64`, the negative `i64` that is `-(n + 1)`, or an `f64`. -/
inductive Number where
  | posInt (n : UInt64)
  | negInt (n : Fin (2 ^ 63))
  | float (f : FiniteF64)
  deriving DecidableEq, Repr

/-- A JSON value; the members of an object are sorted by their keys, which are distinct. -/
inductive Json where
  | null
  | bool (b : Bool)
  | number (n : Number)
  | string (s : String)
  | array (items : List Json)
  | object (members : List (String × Json))

/-- The members of an object as the value of a `Map`. -/
abbrev Members := List (String × Json)

/-- `Map::remove`. -/
def Members.remove (key : String) : Members → Option (Json × Members)
  | [] => none
  | (k, v) :: rest =>
    if k = key then some (v, rest)
    else (Members.remove key rest).map fun (found, rest) => (found, (k, v) :: rest)

/-- `Map::insert`: replace the value of the key or put the key in its place. -/
def Members.insert (key : String) (value : Json) : Members → Members
  | [] => [(key, value)]
  | (k, v) :: rest =>
    if k = key then (key, value) :: rest
    else if key < k then (key, value) :: (k, v) :: rest
    else (k, v) :: Members.insert key value rest

/-- `Value::get`: the member of an object with this key. -/
def Json.get? (key : String) : Json → Option Json
  | .object members => (members.find? (·.1 = key)).map (·.2)
  | _ => none

namespace Members

/-- `Map::get`. -/
def get? (key : String) (members : Members) : Option Json := (Json.object members).get? key

/-- The keys of a map are distinct. -/
def Distinct (members : Members) : Prop := (members.map Prod.fst).Nodup

instance (members : Members) : Decidable members.Distinct :=
  inferInstanceAs (Decidable (List.Nodup _))

@[simp]
theorem get?_nil (key : String) : get? key [] = none := rfl

theorem get?_cons (key k : String) (v : Json) (rest : Members) :
    get? key ((k, v) :: rest) = if k = key then some v else get? key rest := by
  unfold get? Json.get?
  by_cases h : k = key
  · simp [h]
  · simp [h]

/-- A key that is inserted has the new value, and the other keys keep theirs. -/
theorem get?_insert (key k : String) (value : Json) (members : Members) :
    get? k (insert key value members) = if key = k then some value else get? k members := by
  induction members with
  | nil =>
    rw [insert, get?_cons]
  | cons member rest ih =>
    obtain ⟨k', v⟩ := member
    rw [insert]
    by_cases hsame : k' = key
    · rw [if_pos hsame, get?_cons, get?_cons, hsame]
      split_ifs <;> rfl
    · rw [if_neg hsame]
      split_ifs with hbefore hk hk
      · rw [get?_cons, if_pos hk]
      · rw [get?_cons, if_neg hk]
      · rw [get?_cons, ih, if_pos hk, if_neg (hk ▸ hsame)]
      · rw [get?_cons, get?_cons, ih, if_neg hk]

theorem remove_eq_none {key : String} {members : Members} (h : remove key members = none) :
    get? key members = none := by
  induction members with
  | nil => rfl
  | cons member rest ih =>
    obtain ⟨k, v⟩ := member
    rw [remove] at h
    by_cases hk : k = key
    · rw [if_pos hk] at h
      cases h
    · rw [if_neg hk, Option.map_eq_none_iff] at h
      rw [get?_cons, if_neg hk, ih h]

/-- What is removed is the value of the key, and the other keys keep theirs. -/
theorem remove_eq_some {key : String} {members rest : Members} {value : Json}
    (h : remove key members = some (value, rest)) (hdistinct : members.Distinct) :
    get? key members = some value ∧
      ∀ k, get? k rest = if key = k then none else get? k members := by
  induction members generalizing rest with
  | nil => cases h
  | cons member members ih =>
    obtain ⟨k', v⟩ := member
    obtain ⟨hnotMem, hdistinct⟩ := List.nodup_cons.mp hdistinct
    rw [remove] at h
    by_cases hk' : k' = key
    · rw [if_pos hk'] at h
      obtain ⟨rfl, rfl⟩ := Prod.mk.inj (Option.some.inj h)
      refine ⟨by rw [get?_cons, if_pos hk'], fun k => ?_⟩
      rw [get?_cons, hk']
      split_ifs with hk
      · -- the key does not occur again
        rw [← hk, ← hk']
        unfold get? Json.get?
        rw [Option.map_eq_none_iff, List.find?_eq_none]
        intro member hmem heq
        apply hnotMem
        rw [List.mem_map]
        exact ⟨member, hmem, of_decide_eq_true heq⟩
      · rfl
    · rw [if_neg hk'] at h
      obtain ⟨⟨found, rest'⟩, hfound, hpair⟩ := Option.map_eq_some_iff.mp h
      obtain ⟨rfl, rfl⟩ := Prod.mk.inj hpair
      obtain ⟨hvalue, hrest⟩ := ih hfound hdistinct
      refine ⟨by rw [get?_cons, if_neg hk', hvalue], fun k => ?_⟩
      rw [get?_cons, get?_cons, hrest]
      by_cases hk : key = k
      · rw [if_pos hk, if_pos hk, if_neg (hk ▸ hk')]
      · rw [if_neg hk, if_neg hk]

end Members

/-- `Value::as_str`. -/
def Json.asStr : Json → Option String
  | .string s => some s
  | _ => none

/-- `Value::as_array`. -/
def Json.asArray : Json → Option (List Json)
  | .array items => some items
  | _ => none

end Ostrich
