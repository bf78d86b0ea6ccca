import Ostrich.Tamp.Equiv.Repository
import Ostrich.Tamp.Instance

/-!
# Replacing the apex trust anchor

The old apex is not removed: what is removed is the row with the key of the new one.

* `apex_update_iff`: in every state of every run a target has at most one apex and no key twice, and
  an apex update replaces the apex exactly if the target has no apex with another key (and the title
  fits its column as it is);
* `second_apex_refused`: a target with an apex gets another one.
-/

namespace Ostrich.Tamp

open Interleave Table

/-! ### The property -/

/-- A target has at most one apex. -/
def OneApex (s : Store) : Prop :=
  ∀ row ∈ s.trustAnchors.rows, ∀ row' ∈ s.trustAnchors.rows, row.isApex = true →
    row'.isApex = true → row.targetId = row'.targetId → row = row'

/-- The store `s'` is `s` with `apex` as the apex of its target. -/
structure Replaced (clearTrustAnchors : Bool) (apex : TampTrustAnchorRow) (s s' : Store) :
    Prop where
  installed : ∀ row, row ∈ s'.trustAnchors.rows ∧ row.targetId = apex.targetId ∧
    row.isApex = true ↔ row = apex
  kept : clearTrustAnchors = false → ∀ row, row.targetId = apex.targetId → row.isApex = false →
    row.pubKeySpki ≠ apex.pubKeySpki → (row ∈ s'.trustAnchors.rows ↔ row ∈ s.trustAnchors.rows)
  cleared : clearTrustAnchors = true → ∀ row ∈ s'.trustAnchors.rows,
    row.targetId = apex.targetId → row.isApex = true

/-- An apex update succeeds and replaces the apex. -/
def Replaces (clearTrustAnchors clearCommunities : Bool) (apex : TampTrustAnchorRow) (s : Store) :
    Prop :=
  ∃ s', applyApexUpdate apex.targetId clearTrustAnchors clearCommunities apex.pubKeySpki apex.keyId
    apex.taTitle apex.taDer s = .ok s' ∧ Replaced clearTrustAnchors apex s s'

/-- The target has no apex with another key. -/
def NoOtherApex (apex : TampTrustAnchorRow) (s : Store) : Prop :=
  ∀ row ∈ s.trustAnchors.rows, row.targetId = apex.targetId → row.isApex = true →
    row.pubKeySpki = apex.pubKeySpki

/-! ### At most one apex -/

section

variable {s s' : Store} {targetId : Uuid}

theorem hasApex_eq_false :
    s.hasApex targetId = false ↔
      ∀ row ∈ s.trustAnchors.rows, row.targetId = targetId → row.isApex = false := by
  unfold Store.hasApex
  rw [List.any_eq_false]
  refine forall_congr' fun row => forall_congr' fun _ => ?_
  rw [Bool.and_eq_true, decide_eq_true_eq]
  constructor
  · intro h htarget
    exact Bool.not_eq_true _ ▸ fun hapex => h ⟨htarget, hapex⟩
  · intro h hboth
    rw [h hboth.1] at hboth
    cases hboth.2

theorem OneApex.of_subset (h : OneApex s)
    (hsub : ∀ row ∈ s'.trustAnchors.rows, row ∈ s.trustAnchors.rows) : OneApex s' :=
  fun row hrow row' hrow' => h row (hsub row hrow) row' (hsub row' hrow')

theorem OneApex.deleteAnchors (h : OneApex s) (p : TampTrustAnchorRow → Bool) :
    OneApex (deleteAnchors p s) :=
  h.of_subset fun _ hrow => (List.mem_filter.mp hrow).1

theorem oneApex_insertAnchor {row : TampTrustAnchorRow} (h : OneApex s)
    (hinsert : insertAnchor row s = .ok s') : OneApex s' := by
  obtain ⟨hfree, -, anchors, hrows, rfl⟩ := insertAnchor_eq_ok.mp hinsert
  have hmem {row' : TampTrustAnchorRow} (hrow' : row' ∈ anchors.rows) :
      row' ∈ s.trustAnchors.rows ∨ row' = row := by
    rw [(Keyed.rows_of_insert? hrows).2] at hrow'
    exact (List.mem_append.mp hrow').imp_right List.mem_singleton.mp
  intro row₁ hrow₁ row₂ hrow₂ hapex₁ hapex₂ htarget
  rcases hmem hrow₁ with hold₁ | rfl
  · rcases hmem hrow₂ with hold₂ | rfl
    · exact h row₁ hold₁ row₂ hold₂ hapex₁ hapex₂ htarget
    · have hnot := hasApex_eq_false.mp (hfree hapex₂) row₁ hold₁ htarget
      rw [hapex₁] at hnot
      cases hnot
  · rcases hmem hrow₂ with hold₂ | rfl
    · have hnot := hasApex_eq_false.mp (hfree hapex₁) row₂ hold₂ htarget.symm
      rw [hapex₂] at hnot
      cases hnot
    · rfl

theorem oneApex_applyOneWrite {w : TrustAnchorWrite} (h : OneApex s)
    (hw : applyOneWrite targetId s w = .ok s') : OneApex s' := by
  cases w with
  | Insert spki keyId title isApex taDer =>
    obtain ⟨kept, -, hinsert⟩ := applyOneWrite_insert_eq_ok.mp hw
    exact oneApex_insertAnchor h hinsert
  | Remove spki =>
    obtain rfl := Except.ok.inj hw
    exact h.deleteAnchors _
  | Update spki taDer =>
    obtain rfl := Except.ok.inj hw
    intro row₁ hrow₁ row₂ hrow₂ hapex₁ hapex₂ htarget
    obtain ⟨old₁, hold₁, rfl⟩ := List.mem_map.mp hrow₁
    obtain ⟨old₂, hold₂, rfl⟩ := List.mem_map.mp hrow₂
    -- the change leaves all but the DER
    have hsame (row : TampTrustAnchorRow) (p : Bool) :
        (if p then { row with taDer } else row).isApex = row.isApex ∧
          (if p then { row with taDer } else row).targetId = row.targetId := by
      cases p <;> exact ⟨rfl, rfl⟩
    rw [(hsame _ _).1] at hapex₁ hapex₂
    rw [(hsame _ _).2, (hsame _ _).2] at htarget
    rw [h old₁ hold₁ old₂ hold₂ hapex₁ hapex₂ htarget]

/-- The store of an apex update before it inserts. -/
def beforeApex (targetId : Uuid) (clearTrustAnchors clearCommunities : Bool)
    (pubKeySpki : List UInt8) (s : Store) : Store :=
  let s := if clearTrustAnchors then
    deleteAnchors (fun row => row.targetId = targetId && !row.isApex) s else s
  let s := if clearCommunities then
    { s with communities := s.communities.retain fun row => row.targetId ≠ targetId } else s
  deleteAnchors (·.key = (targetId, pubKeySpki)) s

theorem mem_beforeApex {clearTrustAnchors clearCommunities : Bool} {spki : List UInt8}
    {row : TampTrustAnchorRow} :
    row ∈ (beforeApex targetId clearTrustAnchors clearCommunities spki s).trustAnchors.rows ↔
      row ∈ s.trustAnchors.rows ∧ ¬(row.targetId = targetId ∧ row.pubKeySpki = spki) ∧
        (clearTrustAnchors = true → row.targetId = targetId → row.isApex = true) := by
  have hcleared : row ∈ (beforeApex targetId clearTrustAnchors clearCommunities spki
      s).trustAnchors.rows ↔ row ∈ (if clearTrustAnchors then deleteAnchors
        (fun row => row.targetId = targetId && !row.isApex) s else s).trustAnchors.rows ∧
          ¬(row.targetId = targetId ∧ row.pubKeySpki = spki) := by
    unfold beforeApex deleteAnchors Keyed.retain TampTrustAnchorRow.key
    cases clearCommunities <;> simp [List.mem_filter, imp_iff_not_or]
  rw [hcleared]
  cases clearTrustAnchors with
  | false => simp
  | true =>
    unfold deleteAnchors Keyed.retain
    simp only [if_true, List.mem_filter, Bool.not_eq_true', Bool.and_eq_false_imp,
      decide_eq_true_eq, Bool.not_eq_false', true_imp_iff]
    tauto

theorem hasTarget_beforeApex {clearTrustAnchors clearCommunities : Bool} {spki : List UInt8}
    {id : Uuid} : (beforeApex targetId clearTrustAnchors clearCommunities spki s).hasTarget id =
      s.hasTarget id := by
  cases clearTrustAnchors <;> cases clearCommunities <;> rfl

theorem applyApexUpdate_eq {clearTrustAnchors clearCommunities : Bool} {spki taDer : List UInt8}
    {keyId : Option (List UInt8)} {title : Option String} :
    applyApexUpdate targetId clearTrustAnchors clearCommunities spki keyId title taDer s =
      applyOneWrite targetId (beforeApex targetId clearTrustAnchors clearCommunities spki s)
        (.Insert spki keyId title true taDer) := rfl

/-- **No query gives a target two apexes.** -/
theorem OneApex.effect {q : Query} (h : OneApex s) (heffect : Effect s q s') : OneApex s' := by
  cases heffect with
  | same => exact h
  | target => exact h
  | checked => exact h
  | allocated => exact h
  | written hw =>
    exact applyTrustAnchorWrites_keeps (fun _ _ _ _ h hw => oneApex_applyOneWrite h hw) h hw
  | community hc =>
    rw [applyCommunityUpdate_keeps hc]
    exact h
  | apex hw =>
    rw [applyApexUpdate_eq] at hw
    exact oneApex_applyOneWrite (h.of_subset fun _ hrow => (mem_beforeApex.mp hrow).1) hw
  | signer => exact h

end

/-! ### When the apex is replaced -/

section

variable {s : Store} {clearTrustAnchors clearCommunities : Bool} {apex : TampTrustAnchorRow}

/-- What a successful apex update inserts. -/
theorem applyApexUpdate_eq_ok (hapex : apex.isApex = true) {s' : Store} :
    applyApexUpdate apex.targetId clearTrustAnchors clearCommunities apex.pubKeySpki apex.keyId
      apex.taTitle apex.taDer s = .ok s' ↔
    ∃ kept, storedTitle apex.taTitle = .ok kept ∧ NoOtherApex apex s ∧
      s.hasTarget apex.targetId = true ∧ ∃ trustAnchors,
        (beforeApex apex.targetId clearTrustAnchors clearCommunities apex.pubKeySpki
          s).trustAnchors.insert? { apex with taTitle := kept } = some trustAnchors ∧
        s' = { beforeApex apex.targetId clearTrustAnchors clearCommunities apex.pubKeySpki s with
          trustAnchors } := by
  have hfree : (beforeApex apex.targetId clearTrustAnchors clearCommunities apex.pubKeySpki
      s).hasApex apex.targetId = false ↔ NoOtherApex apex s := by
    rw [hasApex_eq_false]
    constructor
    · intro h row hrow htarget hrowApex
      by_contra hkey
      have hnot := h row (mem_beforeApex.mpr ⟨hrow, fun hboth => hkey hboth.2,
        fun _ _ => hrowApex⟩) htarget
      rw [hrowApex] at hnot
      cases hnot
    · intro h row hrow htarget
      obtain ⟨hrow, hkey, -⟩ := mem_beforeApex.mp hrow
      exact Bool.not_eq_true _ ▸ fun hrowApex => hkey ⟨htarget, h row hrow htarget hrowApex⟩
  rw [applyApexUpdate_eq, applyOneWrite_insert_eq_ok]
  refine exists_congr fun kept => and_congr Iff.rfl ?_
  have hrow : ({ targetId := apex.targetId, pubKeySpki := apex.pubKeySpki, keyId := apex.keyId
                 taTitle := kept, isApex := true, taDer := apex.taDer } : TampTrustAnchorRow) =
      { apex with taTitle := kept } := by rw [← hapex]
  rw [hrow, insertAnchor_eq_ok, hasTarget_beforeApex]
  exact and_congr ⟨fun h => hfree.mp (h hapex), fun h _ => hfree.mpr h⟩ Iff.rfl

/-- An apex update replaces the apex exactly if there is no other. -/
theorem replaces_iff (hapex : apex.isApex = true) (htarget : s.hasTarget apex.targetId = true) :
    Replaces clearTrustAnchors clearCommunities apex s ↔
      NoOtherApex apex s ∧ storedTitle apex.taTitle = .ok apex.taTitle := by
  constructor
  · intro h
    obtain ⟨s', hok, hreplaced⟩ := h
    obtain ⟨kept, htitle, hnone, -, anchors, hinsert, rfl⟩ := (applyApexUpdate_eq_ok hapex).mp hok
    refine ⟨hnone, ?_⟩
    -- the inserted row is the new apex
    have hrow : ({ apex with taTitle := kept } : TampTrustAnchorRow) ∈ anchors.rows := by
      rw [(Keyed.rows_of_insert? hinsert).2]
      exact List.mem_append_right _ (List.mem_singleton_self _)
    have heq := (hreplaced.installed _).mp ⟨hrow, rfl, hapex⟩
    have hkept : kept = apex.taTitle := congrArg TampTrustAnchorRow.taTitle heq
    rw [htitle, hkept]
  · intro h
    obtain ⟨hnone, htitle⟩ := h
    set before := beforeApex apex.targetId clearTrustAnchors clearCommunities apex.pubKeySpki s
    have hnew : apex.key ∉ before.trustAnchors.rows.map TampTrustAnchorRow.key := by
      intro hmem
      obtain ⟨row, hrow, hkey⟩ := List.mem_map.mp hmem
      exact (mem_beforeApex.mp hrow).2.1 (Prod.mk.inj hkey)
    have hinsert := Keyed.insert?_eq_put hnew
    have hok := (applyApexUpdate_eq_ok hapex).mpr ⟨apex.taTitle, htitle, hnone, htarget, _,
      hinsert, rfl⟩
    refine ⟨_, hok, ?_⟩
    have hmem (row : TampTrustAnchorRow) : row ∈ (before.trustAnchors.put apex).rows ↔
        row ∈ before.trustAnchors.rows ∨ row = apex := by
      rw [(Keyed.rows_of_insert? hinsert).2, List.mem_append, List.mem_singleton]
    constructor
    · intro row
      constructor
      · intro hrow
        obtain ⟨hrow, hrowTarget, hrowApex⟩ := hrow
        rcases (hmem row).mp hrow with hold | heq
        · obtain ⟨hold, hkey, -⟩ := mem_beforeApex.mp hold
          exact absurd ⟨hrowTarget, hnone row hold hrowTarget hrowApex⟩ hkey
        · exact heq
      · rintro rfl
        exact ⟨(hmem row).mpr (.inr rfl), rfl, hapex⟩
    · intro hclear row hrowTarget hrowApex hkey
      rw [hmem, mem_beforeApex, hclear]
      constructor
      · intro h
        rcases h with hold | rfl
        · exact hold.1
        · exact absurd rfl hkey
      · intro hrow
        exact .inl ⟨hrow, fun hboth => hkey hboth.2, fun h => by cases h⟩
    · intro hclear row hrow hrowTarget
      rcases (hmem row).mp hrow with hold | rfl
      · exact (mem_beforeApex.mp hold).2.2 hclear hrowTarget
      · exact hapex

end

/-! ### Over whole runs -/

/-- **Apex updates**: in every state of every run a target has at most one apex and no key twice,
and an apex update replaces the apex exactly if the target has no apex with another key and the
title fits its column as it is. -/
theorem apex_update_iff (env : Env) (store : Store) (hstore : OneApex store) (cfg : TampState)
    (hreach : (system env).Reach (fun _ _ => True) (System.initial store) cfg) :
    OneApex cfg.world.store ∧
      (cfg.world.store.trustAnchors.rows.map TampTrustAnchorRow.key).Nodup ∧
      ∀ (clearTrustAnchors clearCommunities : Bool) (apex : TampTrustAnchorRow),
        apex.isApex = true → cfg.world.store.hasTarget apex.targetId = true →
          (Replaces clearTrustAnchors clearCommunities apex cfg.world.store ↔
            NoOtherApex apex cfg.world.store ∧ storedTitle apex.taTitle = .ok apex.taTitle) := by
  have hone : OneApex store → OneApex cfg.world.store := by
    refine hreach.store (R := fun s s' => OneApex s → OneApex s') (fun _ h => h)
      (fun hab hbc h => hbc (hab h)) fun i e c w _ h => ?_
    cases e with
    | db q => exact h.effect (exec_effect q c.fault w.store)
    | newUuid => exact h
    | sign => exact h
    | audit => exact h
  exact ⟨hone hstore, cfg.world.store.trustAnchors.nodup,
    fun _ _ _ hapex htarget => replaces_iff hapex htarget⟩

/-! ### An instance -/

/-- A target gets its first apex. -/
def firstApex : List (Action Task Choice) :=
  whole 0 (.issueApexUpdate .AllModules "all" signer (anchor 7) false false none) 9

/-- An apex with a key, for that target. -/
def apexOf (octet : UInt8) : TampTrustAnchorRow where
  targetId := ⟨1⟩
  pubKeySpki := spkiDer (ed25519 octet)
  keyId := some [octet]
  taTitle := none
  isApex := true
  taDer := []

/-- The target is there, and its apexes have this key, as a check. -/
def checkApex (octet : UInt8) (s : Store) : Bool :=
  s.hasTarget ⟨1⟩ && s.hasApex ⟨1⟩ && s.trustAnchors.rows.all fun row =>
    row.pubKeySpki = spkiDer (ed25519 octet)

theorem checkApex_firstApex : ((system (derEnv nothingKnown)).run (fun _ _ => true) firstApex
    (System.initial {})).map (fun cfg => checkApex 7 cfg.world.store) = some true := by
  decide +kernel

theorem oneApex_empty : OneApex {} := fun _ hrow => absurd hrow List.not_mem_nil

/-- The second apex has another key and is refused. -/
theorem second_apex_refused : ∃ cfg : TampState,
    (system (derEnv nothingKnown)).Reach (fun _ _ => True) (System.initial {}) cfg ∧
      cfg.world.store.hasTarget (apexOf 8).targetId = true ∧
      ¬Replaces false false (apexOf 8) cfg.world.store := by
  obtain ⟨cfg, hcfg, hvalue⟩ := Option.map_eq_some_iff.mp checkApex_firstApex
  simp only [checkApex, Bool.and_eq_true] at hvalue
  obtain ⟨⟨htarget, hapex⟩, hkeys⟩ := hvalue
  refine ⟨cfg, System.reach_of_run (fun _ _ _ => trivial) _ hcfg, htarget, fun h => ?_⟩
  have hnone := ((replaces_iff rfl htarget).mp h).1
  obtain ⟨row, hrow, hrowApex⟩ := List.any_eq_true.mp hapex
  rw [Bool.and_eq_true, decide_eq_true_eq] at hrowApex
  -- the first apex has the other key
  have hother := hnone row hrow hrowApex.1 hrowApex.2
  have hkey := of_decide_eq_true (List.all_eq_true.mp hkeys row hrow)
  rw [hkey] at hother
  exact absurd hother (by decide)

/-- The same apex is installed again, and everything else is cleared. -/
theorem same_apex_replaced : ∃ cfg : TampState, cfg.world.store.hasApex ⟨1⟩ = true ∧
    Replaces true true (apexOf 7) cfg.world.store := by
  obtain ⟨cfg, hcfg, hvalue⟩ := Option.map_eq_some_iff.mp checkApex_firstApex
  simp only [checkApex, Bool.and_eq_true] at hvalue
  obtain ⟨⟨htarget, hapex⟩, hkeys⟩ := hvalue
  have hreach : (system (derEnv nothingKnown)).Reach (fun _ _ => True) (System.initial {}) cfg :=
    System.reach_of_run (fun _ _ _ => trivial) _ hcfg
  refine ⟨cfg, hapex, ((apex_update_iff _ {} oneApex_empty cfg hreach).2.2 true true (apexOf 7) rfl
    htarget).mpr ⟨fun row hrow _ _ => ?_, rfl⟩⟩
  exact of_decide_eq_true (List.all_eq_true.mp hkeys row hrow)

end Ostrich.Tamp
