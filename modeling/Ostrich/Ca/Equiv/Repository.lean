import Ostrich.Ca.Rest

/-!
# What the statements do to the tables

`Effect now s q s'` lists the ways in which a statement changes the store; a statement over a
failing connection has its effect or none, and its reply says which (`Query.exec_effect`).  From
it: the keys stay unique (`Store.Unique.exec`), and the rows stay, with the columns that no
statement writes (`Store.Evolves.exec`).
-/

namespace Ostrich.Ca

open Common Interleave Table

/-! ### Effects -/

/-- The queries that write nothing. -/
def Query.reads : Query → Bool
  | .findCertificateById _ | .findRevoked _ | .findLatestCrl _ | .nextCrlNumber _ => true
  | .getRequest _ | .ensureUser _ => true
  | _ => false

/-- What a statement does to the store. -/
inductive Effect (now : DateTime) (s : Store) : Query → Store → Prop
  | read {q : Query} (hq : q.reads = true) : Effect now s q s
  | createCertificate {cert : Certificate} (hid : ∀ c ∈ s.certificates, c.id ≠ cert.id)
      (hserial : ∀ c ∈ s.certificates,
        (c.caId, c.serialNumber) ≠ (cert.caId, cert.serialNumber)) :
      Effect now s (.createCertificate cert) { s with certificates := s.certificates ++ [cert] }
  | revoke {id : Uuid} {reason : ℤ} (hrow : ∃ c ∈ s.certificates, c.id = id ∧ c.revoked = false) :
      Effect now s (.revoke id reason)
        { s with
          certificates := updateWhere (fun c => c.id = id && !c.revoked)
            (·.asRevoked now reason) s.certificates }
  | createCrl {crl : Crl}
      (hnew : ∀ c ∈ s.crls, (c.caId, c.crlNumber) ≠ (crl.caId, crl.crlNumber)) :
      Effect now s (.createCrl crl) { s with crls := s.crls ++ [crl.stored] }
  | createRequest {request : ApprovalRequestRecord} (hnew : ∀ r ∈ s.requests, r.id ≠ request.id) :
      Effect now s (.createRequest request) { s with requests := s.requests ++ [request.stored] }
  | updateRequestStatus {id : Uuid} {status : ApprovalStatus} {approvedAt : Option DateTime}
      (hrow : ∃ r ∈ s.requests, r.id = id) :
      Effect now s (.updateRequestStatus id status approvedAt)
        { s with
          requests := updateWhere (fun r => r.id = id)
            (fun r => { r with status, approvedAt := approvedAt.map kept }) s.requests }
  | markRequestCompleted {id certificateId : Uuid} (hrow : ∃ r ∈ s.requests, r.id = id) :
      Effect now s (.markRequestCompleted id certificateId)
        { s with
          requests := updateWhere (fun r => r.id = id) (·.asCompleted now certificateId)
            s.requests }
  | expireOldRequests :
      Effect now s .expireOldRequests
        { s with
          requests := updateWhere
            (fun r => r.status = .Pending && decide (r.expiresAt < kept now))
            (fun r => { r with status := .Expired }) s.requests }
  | createDecision {decision : ApprovalDecisionRecord} :
      Effect now s (.createDecision decision)
        { s with decisions := s.decisions ++ [decision.stored] }

theorem insertRow_eq_ok {α : Type} {rows rows' : List α} {taken : α → Bool} {row : α}
    (h : insertRow rows taken row = .ok rows') :
    rows' = rows ++ [row] ∧ ∀ r ∈ rows, taken r = false := by
  unfold insertRow at h
  split_ifs at h with htaken
  obtain rfl := Except.ok.inj h
  exact ⟨rfl, by simpa using htaken⟩

theorem updateRow_eq_ok {α : Type} {rows rows' : List α} {p : α → Bool} {f : α → α}
    (h : updateRow rows p f = .ok rows') :
    rows' = updateWhere p f rows ∧ ∃ row ∈ rows, p row = true := by
  unfold updateRow at h
  split_ifs at h with hany
  exact ⟨(Except.ok.inj h).symm, List.any_eq_true.mp hany⟩

/-- A successful statement has its effect. -/
theorem Query.run_effect {q : Query} {now : DateTime} {s s' : Store} {a : q.Result}
    (h : q.run now s = .ok (a, s')) : Effect now s q s' := by
  cases q with
  | createCertificate cert =>
    obtain ⟨rows, hins, h⟩ := bind_eq_ok h
    obtain ⟨rfl, hnew⟩ := insertRow_eq_ok hins
    obtain ⟨-, rfl⟩ := Prod.mk.inj (Except.ok.inj h)
    refine .createCertificate (fun c hc hid => ?_) fun c hc hserial => ?_
    · simpa [hid] using hnew c hc
    · obtain ⟨h1, h2⟩ := Prod.mk.inj hserial
      simpa [h1, h2] using hnew c hc
  | revoke id reason =>
    rw [Query.run] at h
    split_ifs at h with hany
    obtain ⟨-, rfl⟩ := Prod.mk.inj (Except.ok.inj h)
    refine .revoke ?_
    simpa using hany
  | createCrl crl =>
    obtain ⟨rows, hins, h⟩ := bind_eq_ok h
    obtain ⟨rfl, hnew⟩ := insertRow_eq_ok hins
    obtain ⟨-, rfl⟩ := Prod.mk.inj (Except.ok.inj h)
    refine .createCrl fun c hc hkey => ?_
    obtain ⟨h1, h2⟩ := Prod.mk.inj hkey
    simpa [h1, h2] using hnew c hc
  | createRequest request =>
    obtain ⟨rows, hins, h⟩ := bind_eq_ok h
    obtain ⟨rfl, hnew⟩ := insertRow_eq_ok hins
    obtain ⟨-, rfl⟩ := Prod.mk.inj (Except.ok.inj h)
    exact .createRequest fun r hr hid => by simpa [hid] using hnew r hr
  | updateRequestStatus id status approvedAt =>
    obtain ⟨rows, hupd, h⟩ := bind_eq_ok h
    obtain ⟨rfl, hrow⟩ := updateRow_eq_ok hupd
    obtain ⟨-, rfl⟩ := Prod.mk.inj (Except.ok.inj h)
    exact .updateRequestStatus (by simpa using hrow)
  | markRequestCompleted id certificateId =>
    obtain ⟨rows, hupd, h⟩ := bind_eq_ok h
    obtain ⟨rfl, hrow⟩ := updateRow_eq_ok hupd
    obtain ⟨-, rfl⟩ := Prod.mk.inj (Except.ok.inj h)
    exact .markRequestCompleted (by simpa using hrow)
  | expireOldRequests =>
    obtain ⟨-, rfl⟩ := Prod.mk.inj (Except.ok.inj h)
    exact .expireOldRequests
  | createDecision decision =>
    obtain ⟨rows, hins, h⟩ := bind_eq_ok h
    obtain ⟨rfl, hnew⟩ := insertRow_eq_ok hins
    obtain ⟨-, rfl⟩ := Prod.mk.inj (Except.ok.inj h)
    exact .createDecision
  | nextCrlNumber caId =>
    rw [Query.run] at h
    split_ifs at h
    obtain ⟨-, rfl⟩ := Prod.mk.inj (Except.ok.inj h)
    exact .read rfl
  | findCertificateById _ => obtain ⟨-, rfl⟩ := Prod.mk.inj (Except.ok.inj h); exact .read rfl
  | findRevoked _ => obtain ⟨-, rfl⟩ := Prod.mk.inj (Except.ok.inj h); exact .read rfl
  | findLatestCrl _ => obtain ⟨-, rfl⟩ := Prod.mk.inj (Except.ok.inj h); exact .read rfl
  | getRequest _ => obtain ⟨-, rfl⟩ := Prod.mk.inj (Except.ok.inj h); exact .read rfl
  | ensureUser _ => obtain ⟨-, rfl⟩ := Prod.mk.inj (Except.ok.inj h); exact .read rfl

/-- **A statement over a failing connection** has its effect, or none, as its reply says. -/
theorem Query.exec_effect (q : Query) (fault : Fault) (now : DateTime) (s : Store) :
    (q.exec fault now s).1.applied = true ∧ Effect now s q (q.exec fault now s).2 ∨
      (q.exec fault now s).1.applied = false ∧ (q.exec fault now s).2 = s := by
  unfold Query.exec
  cases hrun : q.run now s with
  | error e => exact .inr ⟨rfl, rfl⟩
  | ok p =>
    cases fault with
    | none => exact .inl ⟨rfl, run_effect hrun⟩
    | before => exact .inr ⟨rfl, rfl⟩
    | after => exact .inl ⟨rfl, run_effect hrun⟩

/-- A statement that replied with a result did what it does. -/
theorem Query.run_of_exec_ok {q : Query} {fault : Fault} {now : DateTime} {s : Store}
    {a : q.Result} (h : (q.exec fault now s).1 = .ok a) :
    q.run now s = .ok (a, (q.exec fault now s).2) := by
  unfold Query.exec at h ⊢
  cases hrun : q.run now s with
  | error e => rw [hrun] at h; cases h
  | ok p =>
    rw [hrun] at h
    cases fault with
    | none => exact congrArg Except.ok (Prod.ext (DbReply.ok.inj h) rfl)
    | before => cases h
    | after => cases h

/-- The table of certificates changes by an insertion or a revocation. -/
theorem Effect.certificates {now : DateTime} {s s' : Store} {q : Query} (h : Effect now s q s') :
    s'.certificates = s.certificates ∨
      (∃ cert, q = .createCertificate cert ∧ s'.certificates = s.certificates ++ [cert]) ∨
      ∃ id reason, q = .revoke id reason ∧ s'.certificates =
        updateWhere (fun c => c.id = id && !c.revoked) (·.asRevoked now reason) s.certificates := by
  cases h with
  | createCertificate => exact .inr (.inl ⟨_, rfl, rfl⟩)
  | revoke => exact .inr (.inr ⟨_, _, rfl, rfl⟩)
  | _ => exact .inl rfl

/-- The table of CRLs changes by an insertion. -/
theorem Effect.crls {now : DateTime} {s s' : Store} {q : Query} (h : Effect now s q s') :
    s'.crls = s.crls ∨ ∃ crl, q = .createCrl crl ∧ s'.crls = s.crls ++ [crl.stored] ∧
      ∀ c ∈ s.crls, (c.caId, c.crlNumber) ≠ (crl.caId, crl.crlNumber) := by
  cases h with
  | createCrl hnew => exact .inr ⟨_, rfl, rfl, hnew⟩
  | _ => exact .inl rfl

/-! ### Rows stay -/

/-- A certificate, later: it is the same certificate, and a revocation stays as it is. -/
structure Certificate.Later (c c' : Certificate) : Prop where
  id : c'.id = c.id
  caId : c'.caId = c.caId
  serialNumber : c'.serialNumber = c.serialNumber
  revoked : c.revoked = true → c' = c

theorem Certificate.Later.refl (c : Certificate) : c.Later c := ⟨rfl, rfl, rfl, fun _ => rfl⟩

theorem Certificate.Later.trans {a b c : Certificate} (h : a.Later b) (h' : b.Later c) :
    a.Later c where
  id := h'.id.trans h.id
  caId := h'.caId.trans h.caId
  serialNumber := h'.serialNumber.trans h.serialNumber
  revoked hrev := by
    have hb := h.revoked hrev
    exact (h'.revoked (hb ▸ hrev)).trans hb

/-- A request, later: it asks for the same, and a certificate stays linked. -/
structure ApprovalRequestRecord.Later (r r' : ApprovalRequestRecord) : Prop where
  id : r'.id = r.id
  requestorId : r'.requestorId = r.requestorId
  requestDetails : r'.requestDetails = r.requestDetails
  expiresAt : r'.expiresAt = r.expiresAt
  certificateId : r.certificateId ≠ none → r'.certificateId ≠ none

theorem ApprovalRequestRecord.Later.refl (r : ApprovalRequestRecord) : r.Later r :=
  ⟨rfl, rfl, rfl, rfl, fun h => h⟩

theorem ApprovalRequestRecord.Later.trans {a b c : ApprovalRequestRecord} (h : a.Later b)
    (h' : b.Later c) : a.Later c where
  id := h'.id.trans h.id
  requestorId := h'.requestorId.trans h.requestorId
  requestDetails := h'.requestDetails.trans h.requestDetails
  expiresAt := h'.expiresAt.trans h.expiresAt
  certificateId hcert := h'.certificateId (h.certificateId hcert)

/-- The rows stay. -/
structure Store.Evolves (s s' : Store) : Prop where
  certificates : Follows Certificate.Later s.certificates s'.certificates
  crls : s.crls ⊆ s'.crls
  requests : Follows ApprovalRequestRecord.Later s.requests s'.requests
  decisions : s.decisions ⊆ s'.decisions

theorem Store.Evolves.refl (s : Store) : s.Evolves s where
  certificates := .refl .refl _
  crls := List.Subset.refl _
  requests := .refl .refl _
  decisions := List.Subset.refl _

theorem Store.Evolves.trans {a b c : Store} (h : a.Evolves b) (h' : b.Evolves c) :
    a.Evolves c where
  certificates := h.certificates.trans .trans h'.certificates
  crls := List.Subset.trans h.crls h'.crls
  requests := h.requests.trans .trans h'.requests
  decisions := List.Subset.trans h.decisions h'.decisions

theorem Effect.evolves {now : DateTime} {s s' : Store} {q : Query} (h : Effect now s q s') :
    s.Evolves s' := by
  have hrefl := Store.Evolves.refl s
  have hupd {p : ApprovalRequestRecord → Bool} {f : ApprovalRequestRecord → ApprovalRequestRecord}
      (hf : ∀ r : ApprovalRequestRecord, r.Later (f r)) :
      s.Evolves { s with requests := updateWhere p f s.requests } :=
    { hrefl with requests := follows_updateWhere .refl (fun r _ => hf r) _ }
  cases h with
  | read => exact hrefl
  | createCertificate =>
    exact { hrefl with certificates := follows_insert .refl _ _ }
  | revoke =>
    refine { hrefl with certificates := follows_updateWhere .refl (fun c hc => ?_) _ }
    refine ⟨rfl, rfl, rfl, fun hrev => ?_⟩
    simp [hrev] at hc
  | createCrl => exact { hrefl with crls := List.subset_append_left _ _ }
  | createRequest => exact { hrefl with requests := follows_insert .refl _ _ }
  | updateRequestStatus => exact hupd fun r => ⟨rfl, rfl, rfl, rfl, fun h => h⟩
  | markRequestCompleted =>
    exact hupd fun r => ⟨rfl, rfl, rfl, rfl, fun _ => Option.some_ne_none _⟩
  | expireOldRequests => exact hupd fun r => ⟨rfl, rfl, rfl, rfl, fun h => h⟩
  | createDecision => exact { hrefl with decisions := List.subset_append_left _ _ }

/-! ### Keys stay unique -/

/-- The unique columns. -/
structure Store.Unique (s : Store) : Prop where
  certificates : Table.Unique (·.id) s.certificates
  serials : Table.Unique (fun c => (c.caId, c.serialNumber)) s.certificates
  crls : Table.Unique (fun crl => (crl.caId, crl.crlNumber)) s.crls
  requests : Table.Unique (·.id) s.requests

theorem Effect.unique {now : DateTime} {s s' : Store} {q : Query} (h : Effect now s q s')
    (hu : s.Unique) : s'.Unique := by
  cases h with
  | read => exact hu
  | createCertificate hid hserial =>
    exact { hu with certificates := hu.certificates.insert hid, serials :=
      hu.serials.insert hserial }
  | revoke =>
    exact { hu with certificates := hu.certificates.updateWhere _ fun _ => rfl
                    serials := hu.serials.updateWhere _ fun _ => rfl }
  | createCrl hnew => exact { hu with crls := hu.crls.insert hnew }
  | createRequest hnew => exact { hu with requests := hu.requests.insert hnew }
  | updateRequestStatus =>
    exact { hu with requests := hu.requests.updateWhere _ fun _ => rfl }
  | markRequestCompleted =>
    exact { hu with requests := hu.requests.updateWhere _ fun _ => rfl }
  | expireOldRequests => exact { hu with requests := hu.requests.updateWhere _ fun _ => rfl }
  | createDecision => exact { hu with }

/-! ### Over a run -/

/-- A call has the effect of its statement, if that ran, or none. -/
theorem exec_effect (e : Call) (c : Choice) (s : Store) :
    (∃ q, e = .db q ∧ Effect c.now s q (exec e c s).2) ∨ (exec e c s).2 = s := by
  cases e with
  | db q =>
    rcases q.exec_effect c.fault c.now s with ⟨-, h⟩ | ⟨-, h⟩
    · exact .inl ⟨q, rfl, h⟩
    · exact .inr h
  | now => exact .inr rfl
  | newUuid => exact .inr rfl
  | randomBytes => exact .inr rfl
  | sign _ => exact .inr rfl
  | audit _ => exact .inr rfl

theorem exec_evolves (e : Call) (c : Choice) (s : Store) : s.Evolves (exec e c s).2 := by
  rcases exec_effect e c s with ⟨q, rfl, h⟩ | h
  · exact h.evolves
  · rw [h]
    exact .refl s

variable {env : Env} {allowed : CaWorld → CaEvent → Prop} {cfg cfg' : CaConfig}

/-- Rows stay along a run. -/
theorem reach_evolves (h : (system env).Reach allowed cfg cfg') :
    cfg.world.store.Evolves cfg'.world.store :=
  h.store .refl .trans fun _ e c w _ => exec_evolves e c w.store

/-- Keys are unique in every state of a run. -/
theorem reach_unique (h : (system env).Reach allowed (System.initial {}) cfg) :
    cfg.world.store.Unique := by
  have hstep (e : Call) (c : Choice) (s : Store) (hu : s.Unique) : (exec e c s).2.Unique := by
    rcases exec_effect e c s with ⟨q, rfl, h⟩ | h
    · exact h.unique hu
    · rwa [h]
  have hinit : Store.Unique {} := by
    constructor <;> exact fun _ h => absurd h List.not_mem_nil
  exact h.store (R := fun s s' => s.Unique → s'.Unique) (fun _ h => h)
    (fun h h' hs => h' (h hs)) (fun _ e c w _ => hstep e c w.store) hinit

end Ostrich.Ca
