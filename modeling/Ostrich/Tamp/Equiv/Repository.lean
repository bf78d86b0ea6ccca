import Ostrich.Tamp.Manager

/-!
# What the TAMP queries do to the tables

* `exec_effect`: what a query does to the store, over a connection that may fail;
* `applyTrustAnchorWrites_keeps`: what a batch of writes keeps, from what one write keeps;
* `applyCommunityUpdate_keeps`: a community update leaves the other tables.
-/

namespace Ostrich.Tamp

open Table

section

variable {s s' : Store} {targetId : Uuid}

/-- A query over a connection leaves the store as it is, or runs. -/
theorem exec_store (q : Query) (fault : Fault) (s : Store) :
    (q.exec fault s).2 = s ∨ ∃ a s', q.run s = .ok (a, s') ∧ (q.exec fault s).2 = s' := by
  unfold Query.exec
  cases hrun : q.run s with
  | error e => cases fault <;> exact .inl rfl
  | ok r =>
    obtain ⟨a, s'⟩ := r
    cases fault with
    | none => exact .inr ⟨a, s', rfl, rfl⟩
    | before => exact .inl rfl
    | after => exact .inr ⟨a, s', rfl, rfl⟩

/-- A query that was answered ran. -/
theorem run_of_exec {q : Query} {fault : Fault} {a : q.Result}
    (h : (q.exec fault s).1 = .ok a) : q.run s = .ok (a, (q.exec fault s).2) := by
  unfold Query.exec at h ⊢
  cases hrun : q.run s with
  | error e =>
    rw [hrun] at h
    cases fault <;> cases h
  | ok r =>
    obtain ⟨b, s'⟩ := r
    rw [hrun] at h
    cases fault with
    | none =>
      obtain rfl := DbReply.ok.inj h
      rfl
    | before => cases h
    | after => cases h

/-- A statement that refers to a target. -/
theorem referring_eq_ok {α : Type} {x : Except String α} {a : α} :
    s.referring targetId x = .ok a ↔ s.hasTarget targetId = true ∧ x = .ok a := by
  unfold Store.referring
  by_cases h : s.hasTarget targetId = true
  · rw [if_pos h]
    exact ⟨fun hx => ⟨h, hx⟩, fun hx => hx.2⟩
  · rw [if_neg h]
    refine ⟨fun hx => ?_, fun hx => absurd hx.1 h⟩
    cases hx

/-! ### Trust anchors -/

/-- What an insertion does. -/
theorem insertAnchor_eq_ok {row : TampTrustAnchorRow} :
    insertAnchor row s = .ok s' ↔
      (row.isApex = true → s.hasApex row.targetId = false) ∧ s.hasTarget row.targetId = true ∧
        ∃ trustAnchors, s.trustAnchors.insert? row = some trustAnchors ∧
          s' = { s with trustAnchors } := by
  unfold insertAnchor
  by_cases hapex : (row.isApex && s.hasApex row.targetId) = true
  · rw [if_pos hapex]
    rw [Bool.and_eq_true] at hapex
    constructor
    · intro h
      cases h
    · intro h
      rw [h.1 hapex.1] at hapex
      cases hapex.2
  · rw [if_neg hapex]
    have hfree : row.isApex = true → s.hasApex row.targetId = false := by
      intro hrow
      rw [hrow, Bool.true_and] at hapex
      exact Bool.not_eq_true _ ▸ hapex
    cases hinsert : s.trustAnchors.insert? row with
    | none =>
      constructor
      · intro h
        cases h
      · intro h
        obtain ⟨-, -, _, heq, -⟩ := h
        cases heq
    | some trustAnchors =>
      rw [referring_eq_ok]
      constructor
      · intro h
        exact ⟨hfree, h.1, trustAnchors, rfl, (Except.ok.inj h.2).symm⟩
      · intro h
        obtain ⟨-, htarget, _, heq, rfl⟩ := h
        obtain rfl := Option.some.inj heq
        exact ⟨htarget, rfl⟩

/-- What the write of a new trust anchor does. -/
theorem applyOneWrite_insert_eq_ok {spki taDer : List UInt8} {keyId : Option (List UInt8)}
    {title : Option String} {isApex : Bool} :
    applyOneWrite targetId s (.Insert spki keyId title isApex taDer) = .ok s' ↔
      ∃ kept, storedTitle title = .ok kept ∧
        insertAnchor { targetId, pubKeySpki := spki, keyId, taTitle := kept, isApex, taDer } s =
          .ok s' := by
  unfold applyOneWrite
  dsimp only
  cases storedTitle title with
  | error e =>
    constructor
    · intro h
      cases h
    · intro h
      obtain ⟨_, heq, -⟩ := h
      cases heq
  | ok kept =>
    constructor
    · intro h
      exact ⟨kept, rfl, h⟩
    · intro h
      obtain ⟨_, heq, hinsert⟩ := h
      obtain rfl := Except.ok.inj heq
      exact hinsert

/-! ### What a query does -/

/-- The store after a query that ran. -/
inductive Effect (s : Store) : Query → Store → Prop where
  | same (q : Query) : Effect s q s
  | target {id : Uuid} {label kept : String} {targetDer : List UInt8} {usesApex : Bool}
      (hnew : s.targets.get targetDer = none) (hid : s.hasTarget id = false) :
      Effect s (.insertTarget id label targetDer usesApex)
        { s with targets := s.targets.put { id, label := kept, targetDer, usesApex } }
  | checked {targetId : Uuid} {signerKeyId : List UInt8} {n : ℤ}
      (hgreater : ∀ last, s.lastSeq targetId signerKeyId = some last → last < n) :
      Effect s (.checkAndAdvanceSeq targetId signerKeyId n) (s.setSeq targetId signerKeyId n)
  | allocated {targetId : Uuid} {signerKeyId : List UInt8} {n : ℤ}
      (hgreater : ∀ last, s.lastSeq targetId signerKeyId = some last → last < n) :
      Effect s (.allocateNextSeq targetId signerKeyId) (s.setSeq targetId signerKeyId n)
  | written {targetId : Uuid} {writes : List TrustAnchorWrite} {s' : Store}
      (h : applyTrustAnchorWrites targetId writes s = .ok s') :
      Effect s (.applyTrustAnchorWrites targetId writes) s'
  | community {targetId : Uuid} {remove add : List String} {s' : Store}
      (h : applyCommunityUpdate targetId remove add s = .ok s') :
      Effect s (.applyCommunityUpdate targetId remove add) s'
  | apex {targetId : Uuid} {clearTrustAnchors clearCommunities : Bool} {pubKeySpki : List UInt8}
      {keyId : Option (List UInt8)} {taTitle : Option String} {taDer : List UInt8} {s' : Store}
      (h : applyApexUpdate targetId clearTrustAnchors clearCommunities pubKeySpki keyId taTitle
        taDer s = .ok s') :
      Effect s (.applyApexUpdate targetId clearTrustAnchors clearCommunities pubKeySpki keyId
        taTitle taDer) s'
  | signer {targetId : Uuid} {signerKeyId spki : List UInt8} :
      Effect s (.registerTargetSigner targetId signerKeyId spki)
        { s with signers := s.signers.put { targetId, signerKeyId, spki } }

/-- A result paired with a unit. -/
theorem map_unit_eq_ok {x : Except String Store} {u : Unit}
    (h : x.map ((), ·) = .ok (u, s')) : x = .ok s' := by
  cases x with
  | error e => cases h
  | ok s₁ => exact congrArg Except.ok (Prod.mk.inj (Except.ok.inj h)).2

/-- **What a query does.** -/
theorem run_effect {q : Query} {a : q.Result} (h : q.run s = .ok (a, s')) : Effect s q s' := by
  cases q with
  | findTargetByDer targetDer =>
    obtain ⟨-, rfl⟩ := Prod.mk.inj (Except.ok.inj h)
    exact .same _
  | insertTarget id label targetDer usesApex =>
    have h : insertTarget id label targetDer usesApex s = .ok (a, s') := h
    unfold insertTarget at h
    cases hlabel : varchar 255 label with
    | none =>
      rw [hlabel] at h
      cases h
    | some kept =>
      rw [hlabel] at h
      cases hget : s.targets.get targetDer with
      | some row =>
        rw [hget] at h
        obtain ⟨-, rfl⟩ := Prod.mk.inj (Except.ok.inj h)
        exact .same _
      | none =>
        rw [hget] at h
        dsimp only at h
        split_ifs at h with hid
        obtain ⟨-, rfl⟩ := Prod.mk.inj (Except.ok.inj h)
        exact .target hget (Bool.not_eq_true _ ▸ hid)
  | checkAndAdvanceSeq targetId signerKeyId n =>
    unfold Query.run at h
    dsimp only at h
    cases hlast : s.lastSeq targetId signerKeyId with
    | some last =>
      rw [hlast] at h
      dsimp only at h
      split_ifs at h with hle
      · obtain ⟨-, rfl⟩ := Prod.mk.inj (Except.ok.inj h)
        exact .same _
      · obtain ⟨-, rfl⟩ := Prod.mk.inj (Except.ok.inj h)
        refine .checked fun last' hlast' => ?_
        rw [hlast] at hlast'
        obtain rfl := Option.some.inj hlast'
        omega
    | none =>
      rw [hlast] at h
      obtain ⟨-, rfl⟩ := Prod.mk.inj (Except.ok.inj (referring_eq_ok.mp h).2)
      refine .checked fun last hlast' => ?_
      rw [hlast] at hlast'
      cases hlast'
  | allocateNextSeq targetId signerKeyId =>
    unfold Query.run at h
    dsimp only at h
    cases hlast : s.lastSeq targetId signerKeyId with
    | some last =>
      rw [hlast] at h
      dsimp only at h
      split_ifs at h
      obtain ⟨-, rfl⟩ := Prod.mk.inj (Except.ok.inj h)
      refine .allocated fun last' hlast' => ?_
      rw [hlast] at hlast'
      obtain rfl := Option.some.inj hlast'
      omega
    | none =>
      rw [hlast] at h
      obtain ⟨-, rfl⟩ := Prod.mk.inj (Except.ok.inj (referring_eq_ok.mp h).2)
      refine .allocated fun last hlast' => ?_
      rw [hlast] at hlast'
      cases hlast'
  | trustAnchorExists targetId spki =>
    obtain ⟨-, rfl⟩ := Prod.mk.inj (Except.ok.inj h)
    exact .same _
  | applyTrustAnchorWrites targetId writes => exact .written (map_unit_eq_ok h)
  | applyCommunityUpdate targetId remove add => exact .community (map_unit_eq_ok h)
  | applyApexUpdate => exact .apex (map_unit_eq_ok h)
  | registerTargetSigner targetId signerKeyId spki =>
    obtain ⟨-, rfl⟩ := Prod.mk.inj (Except.ok.inj (referring_eq_ok.mp h).2)
    exact .signer
  | findTargetSignerSpki targetId signerKeyId =>
    obtain ⟨-, rfl⟩ := Prod.mk.inj (Except.ok.inj h)
    exact .same _
  | logMessage =>
    obtain ⟨-, rfl⟩ := Prod.mk.inj (Except.ok.inj h)
    exact .same _

/-- What a query does over a connection that may fail. -/
theorem exec_effect (q : Query) (fault : Fault) (s : Store) : Effect s q (q.exec fault s).2 := by
  rcases exec_store q fault s with heq | ⟨a, s', hrun, heq⟩
  · rw [heq]
    exact .same q
  · rw [heq]
    exact run_effect hrun

/-- What a batch of writes keeps if one write does. -/
theorem applyTrustAnchorWrites_keeps {P : Store → Prop} {writes : List TrustAnchorWrite}
    (hone : ∀ w ∈ writes, ∀ {s s'}, P s → applyOneWrite targetId s w = .ok s' → P s')
    (hs : P s) (h : applyTrustAnchorWrites targetId writes s = .ok s') : P s' := by
  unfold applyTrustAnchorWrites at h
  induction writes generalizing s with
  | nil =>
    obtain rfl := Except.ok.inj h
    exact hs
  | cons w writes ih =>
    rw [List.foldlM_cons] at h
    cases hw : applyOneWrite targetId s w with
    | error e =>
      rw [hw] at h
      cases h
    | ok s₁ =>
      rw [hw] at h
      have hs₁ := hone w (List.mem_cons_self ..) hs hw
      exact ih (fun w' hw' => hone w' (List.mem_cons_of_mem _ hw')) hs₁ h

/-- Adding communities leaves the other tables. -/
theorem addCommunity_keeps {communityOid : String}
    (h : addCommunity targetId s communityOid = .ok s') :
    s' = { s with communities := s'.communities } := by
  unfold addCommunity at h
  split at h
  · obtain rfl := Except.ok.inj h
    rfl
  · obtain rfl := Except.ok.inj (referring_eq_ok.mp h).2
    rfl

theorem foldlM_addCommunity_keeps {add : List String}
    (h : add.foldlM (addCommunity targetId) s = .ok s') :
    s' = { s with communities := s'.communities } := by
  induction add generalizing s with
  | nil =>
    obtain rfl := Except.ok.inj h
    rfl
  | cons oid add ih =>
    rw [List.foldlM_cons] at h
    cases hadd : addCommunity targetId s oid with
    | error e =>
      rw [hadd] at h
      cases h
    | ok s₁ =>
      rw [hadd] at h
      rw [ih h, addCommunity_keeps hadd]

/-- A community update leaves the other tables. -/
theorem applyCommunityUpdate_keeps {remove add : List String}
    (h : applyCommunityUpdate targetId remove add s = .ok s') :
    s' = { s with communities := s'.communities } := by
  have hkeeps := foldlM_addCommunity_keeps h
  exact hkeeps

end

end Ostrich.Tamp
