import Ostrich.Acme.Equiv.Identifier
import Ostrich.Acme.Finalize

/-!
# When an order can be finalized

* `checkOrderFinalizable_eq_ok_iff`: `checkOrderFinalizable` succeeds exactly when the order is
  `ready` and unexpired and its authorizations are, one for each identifier, `Usable`;
* `checkOrderFinalizable_perm`: its result, the error included, does not depend on the order of
  the rows;
* `validateCsrIdentifiers_eq_ok_iff`: `validateCsrIdentifiers` succeeds exactly when the SANs of
  the CSR are the identifiers of the order.
-/

namespace Ostrich.Acme

open Text

variable {nameFromAscii : String → Option Bool}

/-- An authorization that may be used at `now`: `valid`, unexpired, and for an address proven by
http-01. -/
structure Usable (challenges : List AcmeChallenge) (now : DateTime) (authz : AcmeAuthorization) :
    Prop where
  valid : authz.status = "valid"
  unexpired : now < authz.expires
  http01 : authz.identifierType = "ip" → provenByHttp01 challenges authz = true

/-- The rows are the authorizations of the identifiers, one for each. -/
def OneToOne (nameFromAscii : String → Option Bool) (ids : List Identifier)
    (authzs : List AcmeAuthorization) : Prop :=
  ∃ expected, validateOrderIdentifiers nameFromAscii ids = .ok expected ∧
    (authzs.map AcmeAuthorization.key).Perm (expected.map AuthzIdentifier.key)

theorem bindAuthorizations_iff : ∀ (authzs : List AcmeAuthorization)
    (keys : List (String × String × Bool)),
    bindAuthorizations authzs keys = true ↔ (authzs.map AcmeAuthorization.key).Subperm keys := by
  intro authzs
  induction authzs with
  | nil => intro keys; simp [bindAuthorizations, List.nil_subperm]
  | cons authz authzs ih =>
    intro keys
    rw [bindAuthorizations, List.map_cons]
    by_cases hmem : authz.key ∈ keys
    · rw [if_pos hmem, ih]
      have hperm := List.perm_cons_erase hmem
      rw [hperm.subperm_left, List.subperm_cons]
    · rw [if_neg hmem]
      refine iff_of_false (by decide) fun hsub => hmem (hsub.subset (List.mem_cons_self ..))

/-- **When an order can be finalized.** -/
theorem checkOrderFinalizable_eq_ok_iff (order : AcmeOrder) (ids : List Identifier)
    (authzs : List AcmeAuthorization) (challenges : List AcmeChallenge) (now : DateTime) :
    checkOrderFinalizable nameFromAscii order ids authzs challenges now = .ok () ↔
      order.status = "ready" ∧ now < order.expires ∧ OneToOne nameFromAscii ids authzs ∧
      ∀ authz ∈ authzs, Usable challenges now authz := by
  unfold checkOrderFinalizable
  by_cases hready : order.status ≠ "ready" || order.expires ≤ now
  · rw [if_pos hready]
    refine iff_of_false (by simp) ?_
    rintro ⟨hstatus, hexpires, -⟩
    simp [hstatus, not_le.mpr hexpires] at hready
  rw [if_neg hready]
  have hready' : order.status = "ready" ∧ now < order.expires := by simpa using hready
  cases hids : validateOrderIdentifiers nameFromAscii ids with
  | error e =>
    refine iff_of_false (by simp) ?_
    rintro ⟨-, -, ⟨expected, hexpected, -⟩, -⟩
    rw [hids] at hexpected
    cases hexpected
  | ok expected =>
    have hnodup := (validateOrderIdentifiers_eq_ok hids).2
    dsimp only
    rw [hnodup.dedup]
    -- equal lengths turn the one-sided match of pass 1 into a permutation
    have hone : OneToOne nameFromAscii ids authzs ↔
        authzs.length = (expected.map AuthzIdentifier.key).length ∧
          bindAuthorizations authzs (expected.map AuthzIdentifier.key) = true := by
      rw [bindAuthorizations_iff]
      constructor
      · rintro ⟨expected', hexpected', hperm⟩
        obtain rfl := Except.ok.inj (hids.symm.trans hexpected')
        exact ⟨by simpa using hperm.length_eq, hperm.subperm⟩
      · rintro ⟨hlen, hsub⟩
        exact ⟨expected, hids, hsub.perm_of_length_le (by simpa using hlen.ge)⟩
    rw [hone]
    split_ifs with hlen hbind husable hip
    · exact iff_of_false (by simp) fun h => hlen h.2.2.1.1
    · exact iff_of_false (by simp) fun h => by simp [h.2.2.1.2] at hbind
    · refine iff_of_false (by simp) ?_
      rintro ⟨-, -, -, hall⟩
      obtain ⟨authz, hmem, hbad⟩ := List.any_eq_true.mp husable
      simp [(hall authz hmem).valid, not_le.mpr (hall authz hmem).unexpired] at hbad
    · refine iff_of_false (by simp) ?_
      rintro ⟨-, -, -, hall⟩
      obtain ⟨authz, hmem, hbad⟩ := List.any_eq_true.mp hip
      obtain ⟨hmem, hip⟩ := List.mem_filter.mp hmem
      simp [(hall authz hmem).http01 (by simpa using hip)] at hbad
    · refine iff_of_true rfl ⟨hready'.1, hready'.2, ⟨not_not.mp hlen, by simpa using hbind⟩, ?_⟩
      intro authz hmem
      have hok : authz.status = "valid" ∧ now < authz.expires := by
        have := List.any_eq_false.mp (Bool.eq_false_iff.mpr husable) authz hmem
        simpa using this
      refine ⟨hok.1, hok.2, fun htype => ?_⟩
      have := List.any_eq_false.mp (Bool.eq_false_iff.mpr hip) authz
        (List.mem_filter.mpr ⟨hmem, by simpa using htype⟩)
      simpa using this

/-- **The order of the rows does not matter.** -/
theorem checkOrderFinalizable_perm {authzs authzs' : List AcmeAuthorization}
    {challenges challenges' : List AcmeChallenge} (hauthzs : authzs.Perm authzs')
    (hchallenges : challenges.Perm challenges') (order : AcmeOrder) (ids : List Identifier)
    (now : DateTime) :
    checkOrderFinalizable nameFromAscii order ids authzs challenges now
      = checkOrderFinalizable nameFromAscii order ids authzs' challenges' now := by
  have hproven : provenByHttp01 challenges = provenByHttp01 challenges' := by
    funext authz
    exact hchallenges.any_eq
  have hbind (keys : List (String × String × Bool)) :
      bindAuthorizations authzs keys = bindAuthorizations authzs' keys := by
    rw [Bool.eq_iff_iff, bindAuthorizations_iff, bindAuthorizations_iff,
      (hauthzs.map _).subperm_right]
  unfold checkOrderFinalizable
  rw [hproven, hauthzs.length_eq, hauthzs.any_eq, (hauthzs.filter _).any_eq]
  simp only [hbind]

/-! ### The names of the CSR -/

theorem requestedIdentifier_dns (dns : String) :
    requestedIdentifier ("DNS:" ++ dns) = .ok ("dns", toAsciiLowercase dns) := by
  rw [requestedIdentifier, stripPrefix_append]
  rfl

theorem requestedIdentifier_ip (ip : String) :
    requestedIdentifier ("IP:" ++ ip) = .ok ("ip", ip) := by
  rw [requestedIdentifier, stripPrefix_eq_none (by decide) (by decide) (by decide),
    stripPrefix_append]
  rfl

/-- Only DNS names and addresses ask for identifiers. -/
theorem requestedIdentifier_cases {san : String} {r : String × String}
    (h : requestedIdentifier san = .ok r) :
    (∃ dns, san = "DNS:" ++ dns) ∨ ∃ ip, san = "IP:" ++ ip := by
  unfold requestedIdentifier at h
  split at h
  · rename_i dns hdns
    exact .inl ⟨dns, stripPrefix_eq_some.mp hdns⟩
  · split at h
    · rename_i ip hip
      exact .inr ⟨ip, stripPrefix_eq_some.mp hip⟩
    · cases h

/-- The SAN asks for the identifier. -/
def Requests (san : String) (id : Identifier) : Prop :=
  requestedIdentifier san = .ok (normalize id.idType id.value)

/-- **When the CSR asks for the identifiers of the order.** -/
theorem validateCsrIdentifiers_eq_ok_iff (ids : List Identifier) (sans : List String) :
    validateCsrIdentifiers ids sans = .ok () ↔
      (∀ san ∈ sans, ∃ id ∈ ids, Requests san id) ∧ ∀ id ∈ ids, ∃ san ∈ sans, Requests san id := by
  unfold validateCsrIdentifiers
  cases hmap : sans.mapM requestedIdentifier with
  | error e =>
    refine iff_of_false (by nofun) fun h => ?_
    obtain ⟨san, hsan, herror⟩ := exists_of_mapM_eq_error hmap
    obtain ⟨id, -, hid⟩ := h.1 san hsan
    cases herror.symm.trans hid
  | ok requested =>
    obtain ⟨hleft, hright⟩ := mapM_eq_ok hmap
    have hsans : (∀ san ∈ sans, ∃ id ∈ ids, Requests san id) ↔
        ∀ r ∈ requested, r ∈ ids.map fun id => normalize id.idType id.value := by
      constructor
      · intro h r hr
        obtain ⟨san, hsan, hok⟩ := hright r hr
        obtain ⟨id, hid, hrequests⟩ := h san hsan
        exact List.mem_map.mpr ⟨id, hid, Except.ok.inj (hrequests.symm.trans hok)⟩
      · intro h san hsan
        obtain ⟨r, hr, hok⟩ := hleft san hsan
        obtain ⟨id, hid, rfl⟩ := List.mem_map.mp (h r hr)
        exact ⟨id, hid, hok⟩
    have hids : (∀ id ∈ ids, ∃ san ∈ sans, Requests san id) ↔
        ∀ a ∈ ids.map fun id => normalize id.idType id.value, a ∈ requested := by
      rw [List.forall_mem_map]
      refine forall₂_congr fun id _ => ⟨?_, hright _⟩
      rintro ⟨san, hsan, hok⟩
      obtain ⟨r, hr, hr'⟩ := hleft san hsan
      rwa [Except.ok.inj (hok.symm.trans hr')]
    rw [hsans, hids, and_comm]
    dsimp only [bind, Except.bind]
    split_ifs with hall <;>
      simp only [Bool.and_eq_true, List.all_eq_true, decide_eq_true_eq] at hall
    · exact iff_of_true rfl hall
    · exact iff_of_false (by nofun) hall

end Ostrich.Acme
