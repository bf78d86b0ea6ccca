import Ostrich.Ca.Equiv.Issuance

/-!
# What the tasks of the certificate authority do

`caSpec env` says, call by call, which tasks make it and what they have seen before; `ca_meets`
proves it of every task.  What a request asks for is `directContent` for a direct request and
`approvedContent` for an approved one: `issue` puts it into the certificate.
-/

namespace Ostrich.Ca

open Common Interleave X509

/-! ### What is asked for -/

variable (env : Env)

/-- What a direct request asks for. -/
def directContent (req : IssueCertificateRequest) : Option Content :=
  match req.csrDer with
  | some csrDer =>
    match parseCsr env.asn1 csrDer, req.subject, parseCsrSubjectDn env.asn1 csrDer with
    | .ok parsed, some subject, _ | .ok parsed, none, .ok subject =>
      some ⟨req.profileName, subject, req.publicKey.getD parsed.publicKey,
        if req.subjectAltNames.isEmpty then sansFromStrings parsed.subjectAlternativeNames
        else req.subjectAltNames⟩
    | _, _, _ => none
  | none =>
    match req.subject, req.publicKey with
    | some subject, some publicKey =>
      some ⟨req.profileName, subject, publicKey, req.subjectAltNames⟩
    | _, _ => none

/-- What an approval request asks for: its profile, the subject and the key of its CSR, and the
names that `resolve_approval_sans` gives. -/
def approvedContent (details : Json) : Option Content :=
  match (details.get? "csr_pem").bind Json.asStr, (details.get? "profile").bind Json.asStr with
  | some csrPem, some profile =>
    match env.decodePem csrPem with
    | .error _ => none
    | .ok csrDer =>
      match parseCsr env.asn1 csrDer, parseCsrSubjectDn env.asn1 csrDer with
      | .ok parsed, .ok subject =>
        some ⟨profile, subject, parsed.publicKey,
          resolveApprovalSans details parsed.subjectAlternativeNames⟩
      | _, _ => none
  | _, _ => none

/-! ### The specification -/

/-- The task asks the issuer for `request`. -/
inductive Asks (h : Trace) : Task → IssuanceRequest → Prop
  | direct {user : AuthenticatedUser} {req : IssueCertificateRequest} {request : IssuanceRequest}
      (hid : parseApprovalRequestId env req.approvalRequestId = .ok request.approvalRequestId)
      (hcontent : directContent env req = some request.content) :
      Asks h (.issueCertificate user req) request
  | approved {user : AuthenticatedUser} {id : String} {override : Bool}
      {justification : Option String} {requestId : Uuid} {read : ApprovalRequestRecord}
      {request : IssuanceRequest} (hid : env.parseUuid id = some requestId)
      (hread : Replied h (.getRequest requestId) (some read)) (hpending : read.status = .Pending)
      (happroval : request.approvalRequestId = some read.id)
      (hcontent : approvedContent env read.requestDetails = some request.content) :
      Asks h (.approveRequest user id override justification) request
  | service {request : IssuanceRequest} :
      Asks h (.serviceIssue request) { request with approvalRequestId := none }

/-- The steps of a generation after it has read the revoked certificates. -/
abbrev signing (caId : Uuid) (number : ℤ) (thisUpdate : DateTime) (der signature : List UInt8) :
    Trace :=
  [⟨.db (.nextCrlNumber caId), .ok number⟩, ⟨.now, thisUpdate⟩, ⟨.sign der, .ok signature⟩]

/-- A CRL with these entries. -/
structure Crl.Of (caId : Uuid) (number : ℤ) (thisUpdate : DateTime)
    (entries : List RevokedCertificateInfo) (base : Option ℤ) (crl : Crl) : Prop where
  caId : crl.caId = caId
  crlNumber : crl.crlNumber = number
  thisUpdate : crl.thisUpdate = thisUpdate
  entries : crl.tbs.revokedCertificates = entries
  baseCrlNumber : crl.baseCrlNumber = base
  isDelta : crl.isDelta = base.isSome

/-- What a generation has read before it takes a number: the revoked certificates `rows`, and for a
delta CRL the base CRL before. -/
inductive HasRead : Task → Uuid → List RevokedCertificateInfo → Option ℤ → Trace → Prop
  | full {caId : Uuid} {rows : List Certificate} :
      HasRead (.generateCrl caId) caId (fullInfo rows) none [⟨.db (.findRevoked caId), .ok rows⟩]
  | delta {caId : Uuid} {base : Crl} {rows : List Certificate} :
      HasRead (.generateDeltaCrl caId) caId (deltaInfo base rows) (some base.crlNumber)
        [⟨.db (.findLatestCrl caId), .ok (some base)⟩, ⟨.db (.findRevoked caId), .ok rows⟩]

/-- The decision of a task on the request that it read. -/
inductive Decides (h : Trace) : Task → ApprovalDecisionRecord → Prop
  | approve {user : AuthenticatedUser} {id : String} {override : Bool}
      {justification : Option String} {requestId : Uuid} {read : ApprovalRequestRecord}
      {decision : ApprovalDecisionRecord} (hid : env.parseUuid id = some requestId)
      (hread : Replied h (.getRequest requestId) (some read))
      (hrequest : decision.requestId = read.id) (hdecision : decision.decision = .Approved)
      (hother : decision.approverId ≠ read.requestorId)
      (hroles : anyRoleHasPermission decision.approverRoles .ApproveRequest = true) :
      Decides h (.approveRequest user id override justification) decision
  | reject {user : AuthenticatedUser} {id : String} {reason justification : Option String}
      {decision : ApprovalDecisionRecord} (hdecision : decision.decision = .Rejected) :
      Decides h (.rejectRequest user id reason justification) decision

/-- The status that a task writes. -/
inductive Writes (h : Trace) : Task → Uuid → ApprovalStatus → Prop
  | approve {user : AuthenticatedUser} {id : String} {override : Bool}
      {justification : Option String} {requestId : Uuid} {read : ApprovalRequestRecord}
      {decision : ApprovalDecisionRecord} (hid : env.parseUuid id = some requestId)
      (hread : Replied h (.getRequest requestId) (some read))
      (hdecided : Replied h (.createDecision decision) ()) (hrequest : decision.requestId = read.id)
      (hdecision : decision.decision = .Approved) :
      Writes h (.approveRequest user id override justification) requestId .Approved
  | reject {user : AuthenticatedUser} {id : String} {reason justification : Option String}
      {requestId : Uuid} :
      Writes h (.rejectRequest user id reason justification) requestId .Rejected

/-- Which calls a task makes after the history `h`. -/
def callSpec (t : Task) (h : Trace) : Call → Prop
  | .db (.createCertificate cert) => (∃ request, Asks env h t request ∧ Issues env request h cert) ∨
      ((∃ c, t = .storeCertificate c) ∧ cert.revoked = false)
  | .db (.findLatestCrl caId) => t = .generateDeltaCrl caId ∧ h = []
  | .db (.findRevoked caId) => t = .generateCrl caId ∧ h = [] ∨
      ∃ base, t = .generateDeltaCrl caId ∧ h = [⟨.db (.findLatestCrl caId), .ok (some base)⟩]
  | .db (.nextCrlNumber caId) => ∃ entries base, HasRead t caId entries base h
  | .db (.createCrl crl) => ∃ caId entries base before number thisUpdate der signature,
      HasRead t caId entries base before ∧
        h = before ++ signing caId number thisUpdate der signature ∧
        crl.Of caId number thisUpdate entries base
  | .db (.createRequest request) => request.status = .Pending ∧ request.certificateId = none
  | .db (.createDecision decision) => Decides env h t decision
  | .db (.updateRequestStatus id status _) => Writes env h t id status
  | _ => True

/-- What the tasks do. -/
def caSpec : Spec Call Reply Error Unit Task where
  calls := callSpec env
  result := fun _ _ _ => True

/-! ### Revocation lists -/

section

variable {calls : Trace → Call → Prop} (hfree : ∀ h e, e.free = true → calls h e)

theorem does_stageQuery {stage : String} {q : Query} {h : Trace}
    {result : q.Result → Trace → Prop} (hq : calls h (.db q))
    (hresult : ∀ a, result a (h ++ [⟨.db q, .ok a⟩])) :
    (stageQuery stage q).Does calls result h := by
  unfold stageQuery
  rw [Prog.does_bind]
  refine (Prog.does_perform _).mpr ⟨hq, fun r => ?_⟩
  cases r with
  | ok a => exact (Prog.does_pure a).mpr (hresult a)
  | error e applied => exact (Prog.does_fail _).mpr trivial

theorem does_stageOf {stage : String} {wrap : String → Error} {α : Type} {x : Except String α}
    {h : Trace} {result : α → Trace → Prop} (hx : ∀ a, x = .ok a → result a h) :
    (stageOf stage wrap x).Does calls result h := by
  cases x with
  | ok a => exact (Prog.does_pure a).mpr (hx a rfl)
  | error e => exact (Prog.does_fail _).mpr trivial

include hfree

theorem does_signCrl {caId : Uuid} {entries : List RevokedCertificateInfo} {url : Option String}
    {base : Option ℤ} {h : Trace} (hnumber : calls h (.db (.nextCrlNumber caId)))
    (hstore : ∀ number thisUpdate der signature crl,
      Crl.Of caId number thisUpdate entries base crl →
      calls (h ++ signing caId number thisUpdate der signature) (.db (.createCrl crl))) :
    (signCrl env caId entries url base).Does calls (fun _ _ => True) h := by
  unfold signCrl
  rw [Prog.does_bind]
  refine does_stageQuery hnumber fun number => ?_
  rw [Prog.does_bind]
  refine does_stageOf fun algorithm _ => ?_
  rw [Prog.does_bind]
  refine (Prog.does_perform _).mpr ⟨hfree _ _ rfl, fun thisUpdate => ?_⟩
  split
  · exact (Prog.does_fail _).mpr trivial
  · split
    · exact (Prog.does_fail _).mpr trivial
    · rw [Prog.does_bind]
      refine does_stageOf fun der _ => ?_
      rw [Prog.does_bind]
      refine (Prog.does_perform _).mpr ⟨hfree _ _ rfl, fun r => ?_⟩
      cases r with
      | error e => exact (Prog.does_fail _).mpr trivial
      | ok signature =>
        dsimp only
        rw [Prog.does_bind]
        refine does_stageOf fun encoded _ => ?_
        rw [Prog.does_bind]
        refine does_stageQuery ?_ fun _ => (Prog.does_pure _).mpr trivial
        rw [List.append_assoc, List.append_assoc]
        exact hstore number thisUpdate der signature _ ⟨rfl, rfl, rfl, rfl, rfl, rfl⟩

theorem does_generateBy {event : AuditEvent} {build : StageM Crl} {h : Trace}
    (hbuild : build.Does calls (fun _ _ => True) h) :
    (generateBy event build).Does calls (fun _ _ => True) h := by
  unfold generateBy
  rw [Prog.does_bind]
  refine hbuild.result.mono fun r h' _ => ?_
  cases r with
  | ok crl =>
    dsimp only
    rw [Prog.does_bind]
    exact does_record (hfree _ _ rfl) fun _ => (Prog.does_pure _).mpr trivial
  | error failure =>
    dsimp only
    rw [Prog.does_bind, does_await]
    exact ⟨hfree _ _ rfl, fun _ => (Prog.does_fail _).mpr trivial⟩

end

theorem callSpec_free (t : Task) (h : Trace) (e : Call) (he : e.free = true) :
    callSpec env t h e := by
  cases e with
  | db q => cases he
  | _ => trivial

theorem does_generateCrl (caId : Uuid) :
    (generateCrl env caId).Does (callSpec env (.generateCrl caId)) (fun _ _ => True) [] := by
  refine does_generateBy (callSpec_free env _) ?_
  unfold buildFullCrl
  rw [Prog.does_bind]
  refine does_stageQuery (.inl ⟨rfl, rfl⟩) fun rows => ?_
  refine does_signCrl env (callSpec_free env _) ⟨_, _, .full⟩ fun number t der sig crl hcrl => ?_
  exact ⟨caId, _, _, _, number, t, der, sig, .full, rfl, hcrl⟩

theorem does_generateDeltaCrl (caId : Uuid) :
    (generateDeltaCrl env caId).Does (callSpec env (.generateDeltaCrl caId)) (fun _ _ => True)
      [] := by
  refine does_generateBy (callSpec_free env _) ?_
  unfold buildDeltaCrl
  rw [Prog.does_bind]
  refine does_stageQuery ⟨rfl, rfl⟩ fun base => ?_
  cases base with
  | none => exact (Prog.does_fail _).mpr trivial
  | some base =>
    dsimp only
    rw [Prog.does_bind]
    refine does_stageQuery (.inr ⟨base, rfl, rfl⟩) fun rows => ?_
    refine does_signCrl env (callSpec_free env _) ⟨_, _, .delta⟩ fun number t der sig crl hcrl => ?_
    exact ⟨caId, _, _, _, number, t, der, sig, .delta, rfl, hcrl⟩

/-! ### Approvals -/

theorem callSpec_checks (t : Task) (h : Trace) (e : Call) (he : e.checks = true) :
    callSpec env t h e := by
  cases e with
  | db q =>
    cases q with
    | getRequest id => trivial
    | _ => cases he
  | _ => trivial

theorem does_revoke (certificateId : Uuid) (reason : ℤ) (t : Task) :
    (revoke certificateId reason).Does (callSpec env t) (fun _ _ => True) [] := by
  have haudit (h : Trace) (e : Error) (failure : String) :
      (do let _ ← await (.audit ((revocationEvent certificateId).failed (some failure))); .fail e :
        CaM Unit).Does
        (callSpec env t) (fun _ _ => True) h := by
    rw [Prog.does_bind, does_await]
    exact ⟨trivial, fun _ => (Prog.does_fail _).mpr trivial⟩
  unfold revoke
  rw [Prog.does_bind, does_await]
  refine ⟨trivial, fun r => ?_⟩
  match r with
  | .error e _ => exact haudit _ _ _
  | .ok none => exact haudit _ _ _
  | .ok (some cert) =>
    dsimp only
    split
    · exact does_refuse trivial
    · rw [Prog.does_bind, does_await]
      refine ⟨trivial, fun r => ?_⟩
      match r with
      | .error e _ => exact haudit _ _ _
      | .ok () => exact does_record trivial fun _ => trivial

theorem does_subjectOrCsr {calls : Trace → Call → Prop} {h : Trace}
    (subject : Option DistinguishedName) (csrDer : List UInt8) :
    (subjectOrCsr env subject csrDer).Does calls (fun x h' => h' = h ∧
      (subject = some x ∨ subject = none ∧ parseCsrSubjectDn env.asn1 csrDer = .ok x)) h := by
  unfold subjectOrCsr
  cases subject with
  | some subject => exact (Prog.does_pure _).mpr ⟨rfl, .inl rfl⟩
  | none => exact does_ofOutcome fun x hx => ⟨rfl, .inr ⟨rfl, hx⟩⟩

/-- A direct request resolves to what it asks for. -/
theorem does_resolveSubject {calls : Trace → Call → Prop} {h : Trace}
    (req : IssueCertificateRequest) :
    (resolveSubject env req).Does calls (fun x h' => h' = h ∧
      directContent env req = some ⟨req.profileName, x.1, x.2.1, x.2.2⟩) h := by
  unfold resolveSubject directContent
  cases req.csrDer with
  | some csrDer =>
    dsimp only
    rw [Prog.does_bind]
    refine does_ofOutcome fun parsed hparsed => ?_
    rw [Prog.does_bind]
    refine (does_subjectOrCsr env req.subject csrDer).mono fun subject h' hsubject => ?_
    obtain ⟨rfl, hsubject⟩ := hsubject
    refine (Prog.does_pure _).mpr ⟨rfl, ?_⟩
    rw [hparsed]
    rcases hsubject with hsubject | ⟨hnone, hsubject⟩
    · rw [hsubject]
    · rw [hnone, hsubject]
  | none =>
    cases req.subject with
    | none => exact (Prog.does_fail _).mpr trivial
    | some subject =>
      cases req.publicKey with
      | none => exact (Prog.does_fail _).mpr trivial
      | some publicKey => exact (Prog.does_pure _).mpr ⟨rfl, rfl⟩

theorem does_issueCertificate (user : AuthenticatedUser) (req : IssueCertificateRequest) :
    (issueCertificate env user req).Does (callSpec env (.issueCertificate user req))
      (fun _ _ => True) [] := by
  unfold issueCertificate
  rw [Prog.does_bind]
  refine (Prog.does_ofExcept _).mpr fun approvalRequestId hid => ?_
  rw [Prog.does_bind]
  refine (does_resolveSubject env req).mono fun x h' hx => ?_
  obtain ⟨subject, publicKey, subjectAltNames⟩ := x
  obtain ⟨rfl, hcontent⟩ := hx
  refine does_issue env (callSpec_checks env _) _ (by simp) (fun h' cert _ hissues => ?_)
    fun _ _ _ => trivial
  refine .inl ⟨_, ?_, hissues⟩
  exact .direct hid hcontent

theorem does_ensurePrincipalProvisioned {calls : Trace → Call → Prop} {h : Trace}
    (user : AuthenticatedUser) (huser : ∀ h, calls h (.db (.ensureUser user))) :
    (ensurePrincipalProvisioned user).Does calls (fun _ h' =>
      ∀ c r, ⟨.db (.createCertificate c), r⟩ ∈ h' → ⟨.db (.createCertificate c), r⟩ ∈ h) h := by
  unfold ensurePrincipalProvisioned
  split
  · exact (Prog.does_pure _).mpr fun _ _ hmem => hmem
  · rw [Prog.does_bind, does_await]
    refine ⟨huser h, fun r => ?_⟩
    cases r with
    | error e _ => exact (Prog.does_fail _).mpr trivial
    | ok _ => exact (Prog.does_pure _).mpr fun _ _ hmem => by simpa using hmem

theorem does_requestToDecide (t : Task) (user : AuthenticatedUser) (id : String)
    {check : CaM Unit} (hcheck : ∀ h, check.Does (callSpec env t) (fun _ h' => h' = h) h) :
    (requestToDecide env user id check).Does (callSpec env t) (fun x h' =>
      env.parseUuid id = some x.1 ∧ Replied h' (.getRequest x.1) (some x.2) ∧
      ∀ c r, ⟨.db (.createCertificate c), r⟩ ∉ h') [] := by
  unfold requestToDecide
  split
  · exact (Prog.does_fail _).mpr trivial
  · rename_i requestId hid
    rw [Prog.does_bind]
    refine (does_ensurePrincipalProvisioned user fun _ => trivial).mono fun _ h₁ h₁spec => ?_
    rw [Prog.does_bind]
    refine (hcheck h₁).mono fun _ h₂ h₂spec => ?_
    subst h₂spec
    rw [Prog.does_bind]
    refine does_query trivial fun read => ?_
    cases read with
    | none => exact (Prog.does_fail _).mpr trivial
    | some read =>
      refine (Prog.does_pure _).mpr ⟨hid, by simp [Replied], fun c r hmem => ?_⟩
      have := h₁spec c r (by simpa using hmem)
      cases this

section

variable {calls : Trace → Call → Prop} (hchecks : ∀ h e, e.checks = true → calls h e)

include hchecks

theorem does_canDecide (permission : Permission) (required : String)
    (request : ApprovalRequestRecord) (user : AuthenticatedUser) (h : Trace) :
    (canDecide permission required request user).Does calls (fun _ h' => Grows h h' ∧
      request.requestorId ≠ user.id ∧ anyRoleHasPermission user.roles permission = true ∧
      request.status = .Pending) h := by
  unfold canDecide
  split
  · exact (Prog.does_fail _).mpr trivial
  · rename_i hother
    split
    · exact (Prog.does_fail _).mpr trivial
    · rename_i hroles
      split
      · exact (Prog.does_fail _).mpr trivial
      · rename_i hstatus
        rw [Prog.does_bind, does_await]
        refine ⟨hchecks _ _ rfl, fun now => ?_⟩
        split
        · exact (Prog.does_fail _).mpr trivial
        · refine (Prog.does_pure _).mpr ⟨grows_one rfl now, hother, ?_, not_not.mp hstatus⟩
          simpa using hroles

theorem does_newDecision (decision : Decision) (reason justification : String)
    (request : ApprovalRequestRecord) (approver : AuthenticatedUser) (h : Trace) :
    (ApprovalEngine.newDecision decision reason justification request approver).Does calls
      (fun d h' => Grows h h' ∧ d.requestId = request.id ∧ d.approverId = approver.id ∧
        d.approverRoles = approver.roles ∧ d.decision = decision) h := by
  unfold ApprovalEngine.newDecision
  rw [Prog.does_bind, does_await]
  refine ⟨hchecks _ _ rfl, fun id => ?_⟩
  rw [Prog.does_bind, does_await]
  refine ⟨hchecks _ _ rfl, fun decidedAt => ?_⟩
  exact (Prog.does_pure _).mpr ⟨(grows_one rfl id).trans (grows_one rfl decidedAt), rfl,
    rfl, rfl, rfl⟩

/-- An approval is by another user, with the permission. -/
theorem does_engine_approveRequest (request : ApprovalRequestRecord)
    (approver : AuthenticatedUser) (justification : String) (h : Trace) :
    (ApprovalEngine.approveRequest request approver justification).Does calls
      (fun x h' => Grows h h' ∧ request.status = .Pending ∧ x.1.requestId = request.id ∧
        x.1.decision = .Approved ∧ x.1.approverId ≠ request.requestorId ∧
        anyRoleHasPermission x.1.approverRoles .ApproveRequest = true ∧
        x.2 = { request with status := .Approved, approvedAt := some x.1.decidedAt }) h := by
  unfold ApprovalEngine.approveRequest canApprove
  rw [Prog.does_bind]
  refine (does_canDecide hchecks _ _ request approver h).mono fun _ h₁ h₁spec => ?_
  obtain ⟨hgrow₁, hother, hroles, hstatus⟩ := h₁spec
  rw [Prog.does_bind]
  refine (does_newDecision hchecks _ _ _ request approver h₁).mono fun d h₂ h₂spec => ?_
  obtain ⟨hgrow₂, hrequest, happrover, happroverRoles, hdecision⟩ := h₂spec
  refine (Prog.does_pure _).mpr ⟨hgrow₁.trans hgrow₂, hstatus, hrequest, hdecision, ?_, ?_, rfl⟩
  · rw [happrover]
    exact hother.symm
  · rwa [happroverRoles]

theorem does_engine_rejectRequest (request : ApprovalRequestRecord) (approver : AuthenticatedUser)
    (reason justification : String) (h : Trace) :
    (ApprovalEngine.rejectRequest request approver reason justification).Does calls
      (fun x _ => x.1.decision = .Rejected ∧ x.2.status = .Rejected) h := by
  unfold ApprovalEngine.rejectRequest canReject
  rw [Prog.does_bind]
  refine (does_canDecide hchecks _ _ request approver h).mono fun _ h₁ _ => ?_
  rw [Prog.does_bind]
  refine (does_newDecision hchecks _ _ _ request approver h₁).mono fun d h₂ h₂spec => ?_
  exact (Prog.does_pure _).mpr ⟨h₂spec.2.2.2.2, rfl⟩

/-- The certificate of an approved request is the one that the request asks for. -/
theorem does_issueFromApprovedRequest (request : ApprovalRequestRecord) {h : Trace}
    (hfirst : ∀ c r, ⟨.db (.createCertificate c), r⟩ ∉ h)
    (hcreate : ∀ h' cert req, Grows h h' → req.approvalRequestId = some request.id →
      approvedContent env request.requestDetails = some req.content → Issues env req h' cert →
      calls h' (.db (.createCertificate cert)))
    (hmark : ∀ h' id certificateId, calls h' (.db (.markRequestCompleted id certificateId))) :
    (issueFromApprovedRequest env request).Does calls (fun _ _ => True) h := by
  unfold issueFromApprovedRequest
  rw [Prog.does_bind]
  have hdetails : (approvedDetails env request.requestDetails).Does calls (fun x h' => h' = h ∧
      ∃ csrPem, (request.requestDetails.get? "csr_pem").bind Json.asStr = some csrPem ∧
        (request.requestDetails.get? "profile").bind Json.asStr = some x.1 ∧
        env.decodePem csrPem = .ok x.2) h := by
    unfold approvedDetails
    split
    · exact (Prog.does_fail _).mpr trivial
    · rename_i csrPem hpem
      split
      · exact (Prog.does_fail _).mpr trivial
      · rename_i profile hprofile
        rw [Prog.does_bind]
        refine does_ofExcept fun csrDer hder => ?_
        exact (Prog.does_pure _).mpr ⟨rfl, csrPem, hpem, hprofile, hder⟩
  refine hdetails.mono fun x h' hx => ?_
  obtain ⟨profile, csrDer⟩ := x
  obtain ⟨rfl, csrPem, hpem, hprofile, hder⟩ := hx
  dsimp only
  rw [Prog.does_bind]
  refine does_ofOutcome fun parsed hparsed => ?_
  rw [Prog.does_bind]
  refine does_ofOutcome fun subject hsubject => ?_
  refine does_issue env hchecks _ hfirst (fun h' cert hgrow hissues => ?_) hmark
  refine hcreate h' cert _ hgrow rfl ?_ hissues
  unfold approvedContent
  rw [hpem, hprofile]
  dsimp only
  rw [hder]
  dsimp only
  rw [hparsed, hsubject]
  rfl

end

theorem does_approveRequest (user : AuthenticatedUser) (id : String) (override : Bool)
    (justification : Option String) :
    (approveRequest env user id override justification).Does
      (callSpec env (.approveRequest user id override justification)) (fun _ _ => True) [] := by
  have hchecks := callSpec_checks env (.approveRequest user id override justification)
  unfold approveRequest
  rw [Prog.does_bind]
  have hoverride (h : Trace) : (checkOverride user override).Does
      (callSpec env (.approveRequest user id override justification)) (fun _ h' => h' = h) h := by
    unfold checkOverride
    split
    · exact (Prog.does_fail _).mpr trivial
    · exact (Prog.does_pure _).mpr rfl
  refine (does_requestToDecide env _ user id hoverride).mono fun x h₁ h₁spec => ?_
  obtain ⟨requestId, read⟩ := x
  obtain ⟨hid, hread, hfirst⟩ := h₁spec
  dsimp only
  rw [Prog.does_bind]
  refine (does_engine_approveRequest hchecks read user _ h₁).mono fun x h₂ h₂spec => ?_
  obtain ⟨decision, request⟩ := x
  obtain ⟨hgrow, hpending, hrequest, hdecision, hother, hroles, hupdated⟩ := h₂spec
  dsimp only at hupdated hrequest hdecision hother hroles ⊢
  subst hupdated
  rw [Prog.does_bind]
  refine does_query ?_ fun _ => ?_
  · exact .approve hid (hgrow.mem hread) hrequest hdecision hother hroles
  rw [Prog.does_bind]
  refine does_query ?_ fun _ => ?_
  · exact .approve hid (List.mem_append_left _ (hgrow.mem hread))
      (List.mem_append_right _ (List.mem_singleton_self _)) hrequest hdecision
  unfold autoIssue
  split
  · rw [Prog.does_bind]
    refine (does_issueFromApprovedRequest env hchecks _ ?_ ?_ fun _ _ _ => trivial).mono
      fun _ _ _ => does_query trivial fun _ => trivial
    · intro c r hmem
      exact hgrow.not_mem rfl (hfirst c r) (by simpa using hmem)
    · intro h' cert req hgrow' happroval hcontent hissues
      refine .inl ⟨req, ?_, hissues⟩
      refine .approved hid (hgrow'.mem ?_) hpending happroval hcontent
      simpa using hgrow.mem hread
  · exact (Prog.does_pure _).mpr trivial

theorem does_rejectRequest (user : AuthenticatedUser) (id : String)
    (reason justification : Option String) :
    (rejectRequest env user id reason justification).Does
      (callSpec env (.rejectRequest user id reason justification)) (fun _ _ => True) [] := by
  unfold rejectRequest
  rw [Prog.does_bind]
  refine (does_requestToDecide env _ user id fun h => (Prog.does_pure _).mpr rfl).mono
    fun x h₁ _ => ?_
  rw [Prog.does_bind]
  refine (does_engine_rejectRequest (callSpec_checks env _) x.2 user _ _ h₁).mono
    fun y h₂ h₂spec => ?_
  rw [Prog.does_bind]
  refine does_query (.reject h₂spec.1) fun _ => does_query ?_ fun _ => trivial
  rw [h₂spec.2]
  exact .reject

theorem does_submitApprovalRequest (user : AuthenticatedUser) (requestType : RequestType)
    (details : Json) (t : Task) :
    (submitApprovalRequest env user requestType details).Does (callSpec env t) (fun _ _ => True)
      [] := by
  unfold submitApprovalRequest
  rw [Prog.does_bind]
  refine (does_ensurePrincipalProvisioned user fun _ => trivial).mono fun _ h₁ _ => ?_
  rw [Prog.does_bind]
  have hcreate : (ApprovalEngine.createRequest env requestType user details).Does (callSpec env t)
      (fun r _ => r.status = .Pending ∧ r.certificateId = none) h₁ := by
    unfold ApprovalEngine.createRequest
    rw [Prog.does_bind, does_await]
    refine ⟨trivial, fun now => ?_⟩
    split
    · exact (Prog.does_fail _).mpr trivial
    · rw [Prog.does_bind, does_await]
      exact ⟨trivial, fun _ => (Prog.does_pure _).mpr ⟨rfl, rfl⟩⟩
  exact hcreate.mono fun r h₂ hr => does_query hr fun _ => trivial

/-- **Every task keeps to the specification.** -/
theorem ca_meets : (system env).Meets (caSpec env) := by
  intro t
  suffices h : (body env t).Does (callSpec env t) (fun _ _ => True) [] from h.wp
  have hthen {α : Type} {p : CaM α} (hp : p.Does (callSpec env t) (fun _ _ => True) []) :
      (do let _ ← p; return () : CaM Unit).Does (callSpec env t) (fun _ _ => True) [] := by
    rw [Prog.does_bind]
    exact hp.mono fun _ _ _ => (Prog.does_pure _).mpr trivial
  cases t with
  | submitApprovalRequest user requestType details =>
    exact does_submitApprovalRequest env user requestType details _
  | approveRequest user id override justification =>
    exact does_approveRequest env user id override justification
  | rejectRequest user id reason justification =>
    exact does_rejectRequest env user id reason justification
  | expireOldRequests => exact does_query trivial fun _ => trivial
  | issueCertificate user req => exact hthen (does_issueCertificate env user req)
  | serviceIssue request =>
    refine hthen (does_issue env (callSpec_checks env _) _ (by simp) ?_ fun _ _ _ => trivial)
    exact fun h' cert _ hissues => .inl ⟨_, .service, hissues⟩
  | storeCertificate cert => exact does_query (.inr ⟨⟨cert, rfl⟩, rfl⟩) fun _ => trivial
  | revoke certificateId reason => exact does_revoke env certificateId reason _
  | generateCrl caId => exact hthen (does_generateCrl env caId)
  | generateDeltaCrl caId => exact hthen (does_generateDeltaCrl env caId)

end Ostrich.Ca
