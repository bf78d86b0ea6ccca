import Ostrich.Est.Identity
import Ostrich.X509.Profile

/-!
# The profile of a renewal

`selected` folds the profile names of the prior enrollments into one.  `selected_max` says what is
selected: an offerable name of the family that is met first, with the highest rank of that family.

* `selected_broadest`: what follows for the extended key usages and for the order of the names,
  unless both single-usage TLS profiles were issued and the combined one never was;
* `selected_narrows`: what happens in that case.
-/

namespace Ostrich.Est

open X509

/-- The profile that is selected for a renewal. -/
def selected (names : List (Option String)) : Option String := names.foldl broadestEstProfile none

/-- An offerable profile was issued under this name before. -/
def Prior (names : List (Option String)) (name : String) : Prop :=
  some name ∈ names ∧ name ∈ offerableEstProfiles

/-- The offerable names, in the order of the enrollments. -/
def offerable (names : List (Option String)) : List String :=
  names.filterMap fun name => name.filter (offerableEstProfiles.contains ·)

/-- Both names are EFS, or none is. -/
def SameFamily (a b : String) : Prop := a = efsProfileName ↔ b = efsProfileName

instance (a b : String) : Decidable (SameFamily a b) := inferInstanceAs (Decidable (_ ↔ _))

/-- The extended key usages that the CA puts into certificates under a profile name. -/
def granted (name : String) : List ExtendedKeyUsage :=
  ((defaultProfiles.find? (·.name = name)).map (·.extendedKeyUsage)).getD []

/-- The server and the client profile were issued, and the combined one never was. -/
def Split (names : List (Option String)) : Prop :=
  Prior names "tls_server" ∧ Prior names "tls_client" ∧ ¬ Prior names "tls_server_client"

/-! ### The fold -/

theorem mem_offerable {names : List (Option String)} {name : String} :
    name ∈ offerable names ↔ Prior names name := by
  unfold offerable Prior
  rw [List.mem_filterMap]
  constructor
  · rintro ⟨candidate, hmem, heq⟩
    obtain ⟨rfl, hoffer⟩ := Option.filter_eq_some_iff.mp heq
    exact ⟨hmem, by simpa using hoffer⟩
  · rintro ⟨hmem, hoffer⟩
    exact ⟨some name, hmem, Option.filter_eq_some_iff.mpr ⟨rfl, by simpa using hoffer⟩⟩

/-- The fold over the offerable names, from the first of them. -/
def broader (current candidate : String) : String :=
  if decide (current = efsProfileName) ≠ decide (candidate = efsProfileName) then current
  else if profileCapabilityRank current < profileCapabilityRank candidate then candidate
  else current

theorem foldl_broadestEstProfile (current : String) (names : List (Option String)) :
    names.foldl broadestEstProfile (some current) =
      some ((offerable names).foldl broader current) := by
  induction names generalizing current with
  | nil => rfl
  | cons name names ih =>
    rw [List.foldl_cons, offerable, List.filterMap_cons]
    unfold broadestEstProfile
    cases hname : name.filter (offerableEstProfiles.contains ·) with
    | none => exact ih current
    | some candidate =>
      dsimp only
      rw [List.foldl_cons]
      unfold broader
      split_ifs <;> exact ih _

theorem selected_eq (names : List (Option String)) :
    selected names = match offerable names with
      | [] => none
      | first :: rest => some (rest.foldl broader first) := by
  unfold selected
  induction names with
  | nil => rfl
  | cons name names ih =>
    rw [List.foldl_cons, offerable, List.filterMap_cons]
    cases hname : name.filter (offerableEstProfiles.contains ·) with
    | none =>
      have hstep : broadestEstProfile none name = none := by
        unfold broadestEstProfile
        rw [hname]
      rw [hstep]
      exact ih
    | some candidate =>
      have hstep : broadestEstProfile none name = some candidate := by
        unfold broadestEstProfile
        rw [hname]
      rw [hstep]
      exact foldl_broadestEstProfile candidate names

/-- One step keeps the family, and goes up in rank. -/
theorem broader_spec (current candidate : String) :
    (broader current candidate = current ∨ broader current candidate = candidate) ∧
      SameFamily (broader current candidate) current ∧
      profileCapabilityRank current ≤ profileCapabilityRank (broader current candidate) ∧
      (SameFamily candidate current →
        profileCapabilityRank candidate ≤ profileCapabilityRank (broader current candidate)) := by
  unfold broader SameFamily
  by_cases hfamily : (current = efsProfileName ↔ candidate = efsProfileName)
  · rw [if_neg (by simpa using hfamily)]
    by_cases hrank : profileCapabilityRank current < profileCapabilityRank candidate
    · rw [if_pos hrank]
      exact ⟨.inr rfl, hfamily.symm, hrank.le, fun _ => Nat.le_refl _⟩
    · rw [if_neg hrank]
      exact ⟨.inl rfl, Iff.rfl, Nat.le_refl _, fun _ => Nat.le_of_not_lt hrank⟩
  · rw [if_pos (by simpa using hfamily)]
    exact ⟨.inl rfl, Iff.rfl, Nat.le_refl _, fun h => absurd h.symm hfamily⟩

theorem foldl_broader_spec (first : String) (rest : List String) :
    rest.foldl broader first ∈ first :: rest ∧
      SameFamily (rest.foldl broader first) first ∧
      ∀ name ∈ first :: rest, SameFamily name first →
        profileCapabilityRank name ≤ profileCapabilityRank (rest.foldl broader first) := by
  induction rest generalizing first with
  | nil =>
    refine ⟨List.mem_singleton_self first, Iff.rfl, fun name hname _ => ?_⟩
    rw [List.mem_singleton.mp hname]
    exact Nat.le_refl _
  | cons candidate rest ih =>
    obtain ⟨hmem, hfamily, hmax⟩ := ih (broader first candidate)
    obtain ⟨heither, hkept, hrank, hcandidate⟩ := broader_spec first candidate
    rw [List.foldl_cons]
    set result := rest.foldl broader (broader first candidate)
    have hstep := hmax _ List.mem_cons_self Iff.rfl
    refine ⟨?_, hfamily.trans hkept, fun name hname hsame => ?_⟩
    · rcases List.mem_cons.mp hmem with heq | hrest
      · rw [heq]
        rcases heither with heq | heq
        · rw [heq]
          exact List.mem_cons_self
        · rw [heq]
          exact List.mem_cons_of_mem _ List.mem_cons_self
      · exact List.mem_cons_of_mem _ (List.mem_cons_of_mem _ hrest)
    · rcases List.mem_cons.mp hname with rfl | hname
      · exact hrank.trans hstep
      · rcases List.mem_cons.mp hname with rfl | hname
        · exact (hcandidate hsame).trans hstep
        · exact hmax name (List.mem_cons_of_mem _ hname) (hsame.trans hkept.symm)

/-- What is selected: the family of the first offerable name, and the highest rank in it. -/
theorem selected_max {names : List (Option String)} {profile : String}
    (h : selected names = some profile) :
    Prior names profile ∧
      (profile = efsProfileName ↔ (offerable names).head? = some efsProfileName) ∧
      ∀ name, Prior names name → SameFamily name profile →
        profileCapabilityRank name ≤ profileCapabilityRank profile := by
  rw [selected_eq] at h
  split at h
  · cases h
  · rename_i first rest hoffer
    obtain rfl := Option.some.inj h
    obtain ⟨hmem, hfamily, hmax⟩ := foldl_broader_spec first rest
    refine ⟨?_, ?_, fun name hname hsame => ?_⟩
    · rw [← mem_offerable, hoffer]
      exact hmem
    · rw [hoffer, List.head?_cons, Option.some.injEq]
      exact hfamily
    · rw [← mem_offerable, hoffer] at hname
      exact hmax name hname (hsame.trans hfamily)

theorem selected_isSome (names : List (Option String)) :
    (selected names).isSome ↔ ∃ name, Prior names name := by
  rw [selected_eq]
  cases hoffer : offerable names with
  | nil =>
    refine iff_of_false (by simp) ?_
    rintro ⟨name, hname⟩
    rw [← mem_offerable, hoffer] at hname
    exact absurd hname List.not_mem_nil
  | cons first rest =>
    refine iff_of_true rfl ⟨first, ?_⟩
    rw [← mem_offerable, hoffer]
    exact List.mem_cons_self

/-! ### Capabilities -/

/-- The rank orders the capabilities of a family, but for the two profiles with one usage. -/
theorem granted_of_rank : ∀ profile ∈ offerableEstProfiles, ∀ name ∈ offerableEstProfiles,
    SameFamily name profile → profileCapabilityRank name ≤ profileCapabilityRank profile →
    (∀ usage ∈ granted name, usage ∈ granted profile) ∧
        (profileCapabilityRank profile ≤ profileCapabilityRank name → name = profile) ∨
      (name = "tls_server" ∧ profile = "tls_client") ∨
      (name = "tls_client" ∧ profile = "tls_server") := by
  decide

theorem mem_of_some {names : List (Option String)} {profile name : String}
    (h : selected names = some profile) (hsplit : ¬ Split names) (hname : Prior names name)
    (hsame : SameFamily name profile) :
    (∀ usage ∈ granted name, usage ∈ granted profile) ∧
      (profileCapabilityRank profile ≤ profileCapabilityRank name → name = profile) := by
  obtain ⟨hprior, -, hmax⟩ := selected_max h
  have hrank := hmax name hname hsame
  -- the combined profile would have been selected over one with a single usage
  have hboth (hone : profileCapabilityRank profile = 1) (hnotEfs : profile ≠ efsProfileName) :
      ¬ Prior names "tls_server_client" := by
    intro hcombined
    have hle := hmax _ hcombined (iff_of_false (by decide) hnotEfs)
    rw [hone] at hle
    exact absurd hle (by decide)
  rcases granted_of_rank profile hprior.2 name hname.2 hsame hrank with
    hgranted | ⟨rfl, rfl⟩ | ⟨rfl, rfl⟩
  · exact hgranted
  · exact absurd ⟨hname, hprior, hboth (by decide) (by decide)⟩ hsplit
  · exact absurd ⟨hprior, hname, hboth (by decide) (by decide)⟩ hsplit

theorem prior_perm {names names' : List (Option String)} (h : names.Perm names') (name : String) :
    Prior names name ↔ Prior names' name :=
  and_congr_left fun _ => h.mem_iff

/-- **The profile of a renewal.**  An offerable profile is selected exactly when some prior
enrollment had one, and it is one of those; unless both single-usage TLS profiles were issued and
the combined one never was, it grants whatever an offerable profile of its family granted, and the
order of the enrollments matters only through the family of the first offerable one. -/
theorem selected_broadest (names : List (Option String)) :
    ((selected names).isSome ↔ ∃ name, Prior names name) ∧
      ∀ profile, selected names = some profile →
        Prior names profile ∧
        (¬ Split names → ∀ name, Prior names name → SameFamily name profile →
          ∀ usage ∈ granted name, usage ∈ granted profile) ∧
        ∀ names', names.Perm names' →
          ((offerable names).head? = some efsProfileName ↔
            (offerable names').head? = some efsProfileName) →
          ¬ Split names → selected names' = some profile := by
  refine ⟨selected_isSome names, fun profile h => ?_⟩
  obtain ⟨hprior, hfirst, hmax⟩ := selected_max h
  refine ⟨hprior, fun hsplit name hname hsame => (mem_of_some h hsplit hname hsame).1, ?_⟩
  intro names' hperm hfamilies hsplit
  have hsome : (selected names').isSome :=
    (selected_isSome names').mpr ⟨profile, (prior_perm hperm profile).mp hprior⟩
  obtain ⟨profile', h'⟩ := Option.isSome_iff_exists.mp hsome
  obtain ⟨hprior', hfirst', hmax'⟩ := selected_max h'
  have hsame : SameFamily profile' profile := hfirst'.trans (hfamilies.symm.trans hfirst.symm)
  have hback := (prior_perm hperm profile').mpr hprior'
  have hrank := hmax' profile ((prior_perm hperm profile).mp hprior) hsame.symm
  rw [h', (mem_of_some h hsplit hback hsame).2 hrank]

/-- A client and a server certificate were issued: the renewal narrows one of them, as the order
says; and the order decides between EFS and TLS. -/
theorem selected_narrows :
    selected [some "tls_client", some "tls_server"] = some "tls_client" ∧
      .ServerAuth ∈ granted "tls_server" ∧ .ServerAuth ∉ granted "tls_client" ∧
      selected [some "tls_server", some "tls_client"] = some "tls_server" ∧
      selected [some "efs", some "tls_client"] = some "efs" ∧
      selected [some "tls_client", some "efs"] = some "tls_client" := by
  decide

end Ostrich.Est
