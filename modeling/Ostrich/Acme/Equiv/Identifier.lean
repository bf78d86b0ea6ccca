import Mathlib.Data.List.Forall2
import Ostrich.Acme.Identifier
import Ostrich.Lib.Outcome

/-!
# What `validateOrderIdentifiers` gives

`validateOrderIdentifiers_eq_ok`: the result is the list of the parsed identifiers, in order, and
no two of them have the same key.
-/

namespace Ostrich.Acme

open Text

variable {nameFromAscii : String → Option Bool}

theorem validateOrderIdentifiers_loop_eq_ok : ∀ (ids : List Identifier)
    (seen : List (String × String × Bool)) (out result : List AuthzIdentifier),
    validateOrderIdentifiers.loop nameFromAscii ids seen out = .ok result →
    ∃ parsed, result = out ++ parsed ∧
      List.Forall₂ (fun id a => parseOrderIdentifier nameFromAscii id = .ok a) ids parsed ∧
      (parsed.map AuthzIdentifier.key).Nodup ∧ ∀ a ∈ parsed, a.key ∉ seen := by
  intro ids
  induction ids with
  | nil =>
    intro seen out result h
    obtain rfl := Except.ok.inj h
    exact ⟨[], by simp, .nil, by simp, by simp⟩
  | cons id ids ih =>
    intro seen out result h
    obtain ⟨authz, hparse, h⟩ := bind_eq_ok h
    by_cases hseen : authz.key ∈ seen
    · rw [if_pos hseen] at h
      cases h
    · rw [if_neg hseen] at h
      obtain ⟨parsed, rfl, hall, hnodup, hfresh⟩ := ih _ _ _ h
      refine ⟨authz :: parsed, by simp, .cons hparse hall, ?_, ?_⟩
      · rw [List.map_cons, List.nodup_cons]
        refine ⟨fun hmem => ?_, hnodup⟩
        obtain ⟨a, ha, hkey⟩ := List.mem_map.mp hmem
        exact hfresh a ha (hkey ▸ List.mem_cons_self ..)
      · intro a ha
        rcases List.mem_cons.mp ha with rfl | ha
        · exact hseen
        · exact fun hmem => hfresh a ha (List.mem_cons_of_mem _ hmem)

/-- **An accepted list is parsed identifier by identifier, without duplicates.** -/
theorem validateOrderIdentifiers_eq_ok {ids : List Identifier} {expected : List AuthzIdentifier}
    (h : validateOrderIdentifiers nameFromAscii ids = .ok expected) :
    List.Forall₂ (fun id a => parseOrderIdentifier nameFromAscii id = .ok a) ids expected ∧
      (expected.map AuthzIdentifier.key).Nodup := by
  unfold validateOrderIdentifiers at h
  split_ifs at h
  obtain ⟨parsed, rfl, hall, hnodup, -⟩ := validateOrderIdentifiers_loop_eq_ok _ _ _ _ h
  exact ⟨hall, hnodup⟩

/-- Each identifier of an accepted list is accepted. -/
theorem exists_parse_of_validate {ids : List Identifier} {expected : List AuthzIdentifier}
    (h : validateOrderIdentifiers nameFromAscii ids = .ok expected) :
    ∀ id ∈ ids, ∃ a, parseOrderIdentifier nameFromAscii id = .ok a := by
  have hall : List.Forall₂ (fun id a => (∃ a, parseOrderIdentifier nameFromAscii id = .ok a) ∧
      parseOrderIdentifier nameFromAscii id = .ok a) ids expected :=
    (validateOrderIdentifiers_eq_ok h).1.imp fun _ a ha => ⟨⟨a, ha⟩, ha⟩
  exact ((List.forall₂_and_left _ _).mp hall).1

/-- The identifiers of an accepted list are DNS names and addresses. -/
theorem idType_of_validate {ids : List Identifier} {expected : List AuthzIdentifier}
    (h : validateOrderIdentifiers nameFromAscii ids = .ok expected) :
    ∀ id ∈ ids, id.idType = "dns" ∨ id.idType = "ip" := by
  intro id hid
  obtain ⟨a, hparse⟩ := exists_parse_of_validate h id hid
  unfold parseOrderIdentifier at hparse
  split_ifs at hparse with hdns hip
  · exact .inl hdns
  · exact .inr hip

end Ostrich.Acme
