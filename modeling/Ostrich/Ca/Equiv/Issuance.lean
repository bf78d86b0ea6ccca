import Ostrich.Ca.Equiv.Repository

/-!
# What issuance does

`issue` prepares the certificate and commits it (`issue_eq`): the preparation makes no call that
changes the database (`does_prepare`), and what is committed is what was asked for (`does_issue`).
-/

namespace Ostrich.Ca

open Common Interleave X509

/-- The calls and replies of a task. -/
abbrev Trace := History Call Reply

/-- The query was answered with `a`. -/
def Replied (h : Trace) (q : Query) (a : q.Result) : Prop := ⟨.db q, .ok a⟩ ∈ h

/-! ### What is asked for -/

/-- The parts of a certificate that a request decides. -/
structure Content where
  profileName : String
  subject : DistinguishedName
  publicKey : List UInt8
  subjectAltNames : List SubjectAltName
  deriving DecidableEq

/-- What a certificate is for. -/
def Certificate.content (c : Certificate) : Option Content :=
  c.profileName.map fun profileName =>
    ⟨profileName, c.tbs.subject, c.tbs.publicKey, c.tbs.subjectAltNames⟩

def IssuanceRequest.content (r : IssuanceRequest) : Content :=
  ⟨r.profileName, r.subject, r.publicKey, r.subjectAltNames⟩

variable (env : Env)

/-- The calls that do not go to the database. -/
def Call.free : Call → Bool
  | .db _ => false
  | _ => true

/-- The issuer, asked for `request`, makes `cert`. -/
structure Issues (request : IssuanceRequest) (h : Trace) (cert : Certificate) : Prop where
  content : cert.content = some request.content
  caId : cert.caId = env.caId
  serialNumber : ∃ bytes, ⟨.randomBytes, .ok bytes⟩ ∈ h ∧ cert.serialNumber = clearHighBit bytes.1
  tbs_serialNumber : cert.tbs.serialNumber = cert.serialNumber
  not_revoked : cert.revoked = false
  first : ∀ c r, ⟨.db (.createCertificate c), r⟩ ∉ h
  approved : env.requireApproval = true → ∃ id read, request.approvalRequestId = some id ∧
    Replied h (.getRequest id) (some read) ∧ read.status = .Approved ∧ read.certificateId = none

/-- The CSR is signed by the key that it is for, and that is the key of the request. -/
def CsrAccepted (request : IssuanceRequest) (csrDer : List UInt8) : Prop :=
  ∃ parsed, parseCsr env.asn1 csrDer = .ok parsed ∧
    verifyCsrSignature env.asn1 env.verifyWithSpki parsed = .ok true ∧
    parsed.publicKey = request.publicKey

/-- The request passes the checks against its profile. -/
structure Accepted (profile : CertificateProfile) (request : IssuanceRequest) : Prop where
  names : profile.subjectAltNameRequired = true → request.subjectAltNames.isEmpty = false
  csr : ∀ csrDer, request.csrDer = some csrDer → CsrAccepted env request csrDer
  possession : request.csrDer = none → env.requireProofOfPossession = true →
    profile.basicConstraintsCa = true

/-- With some serial number, at some time, a certificate for the request can be encoded and
signed. -/
def Buildable (profile : CertificateProfile) (request : IssuanceRequest) : Prop :=
  ∃ (issuer : DistinguishedName) (algorithm : Crypto.Algorithm)
    (bytes : { bytes : List UInt8 // bytes.length = 20 }) (notBefore notAfter : DateTime)
    (keyId der raw signature : List UInt8),
    env.caSubject = .ok issuer ∧ env.signatureAlgorithm = .ok algorithm ∧
    notBefore.addSeconds (profile.validityDays * 86400) = some notAfter ∧
    ¬notAfter ≤ notBefore ∧ env.keyIdentifier request.publicKey = .ok keyId ∧
    env.certificateToDer (tbsCertificate profile request (clearHighBit bytes.1) issuer notBefore
      notAfter) = .ok der ∧
    env.encodeSignature algorithm raw = .ok signature

/-! ### Rules -/

section

variable {calls : Trace → Call → Prop} {h : Trace} {α : Type}

theorem does_await {e : Call} {result : Reply e → Trace → Prop} :
    (await e).Does calls result h ↔ calls h e ∧ ∀ r, result r (h ++ [⟨e, r⟩]) :=
  Prog.does_perform e

theorem does_query {q : Query} {result : q.Result → Trace → Prop} (hq : calls h (.db q))
    (hresult : ∀ a, result a (h ++ [⟨.db q, .ok a⟩])) : (query q).Does calls result h := by
  unfold query
  rw [Prog.does_bind, does_await]
  refine ⟨hq, fun r => ?_⟩
  cases r with
  | ok a => exact (Prog.does_pure a).mpr (hresult a)
  | error e applied => exact (Prog.does_fail _).mpr trivial

theorem does_ofOutcome {wrap : X509.Error → Error} {x : Outcome X509.Error α}
    {result : α → Trace → Prop} (hx : ∀ a, x = .ok a → result a h) :
    (ofOutcome wrap x).Does calls result h := by
  cases x with
  | ok a => exact (Prog.does_pure a).mpr (hx a rfl)
  | err e => exact (Prog.does_fail _).mpr trivial
  | panic => exact (Prog.does_fail _).mpr trivial
  | hang => exact (Prog.does_fail _).mpr trivial

theorem does_ofExcept {wrap : String → Error} {x : Except String α} {result : α → Trace → Prop}
    (hx : ∀ a, x = .ok a → result a h) : (ofExcept wrap x).Does calls result h := by
  cases x with
  | ok a => exact (Prog.does_pure a).mpr (hx a rfl)
  | error e => exact (Prog.does_fail _).mpr trivial

theorem does_record {event : AuditEvent} {result : Unit → Trace → Prop}
    (haudit : calls h (.audit event)) (hresult : ∀ r, result () (h ++ [⟨.audit event, r⟩])) :
    (record event).Does calls result h := by
  unfold record
  rw [Prog.does_bind, does_await]
  refine ⟨haudit, fun r => ?_⟩
  split_ifs
  · exact (Prog.does_pure ()).mpr (hresult r)
  · exact (Prog.does_fail _).mpr trivial

theorem does_refuse {event : AuditEvent} {e : Error} {result : α → Trace → Prop}
    (haudit : calls h (.audit event)) : (refuse event e).Does calls result h := by
  unfold refuse
  rw [Prog.does_bind]
  exact does_record haudit fun _ => (Prog.does_fail _).mpr trivial

end

/-! ### Histories -/

/-- The calls of `issue` before it stores the certificate. -/
def Call.checks : Call → Bool
  | .db (.getRequest _) => true
  | e => e.free

/-- The history grew by checks only. -/
abbrev Grows (h h' : Trace) : Prop := History.Grows Call.checks h h'

/-! ### Issuance -/

/-- The part of `issue` before it stores the certificate: the id of the request and the
certificate. -/
def prepare (request : IssuanceRequest) : CaM (Uuid × Certificate) := do
  let requestId ← requestIdOf request
  let event := issuanceEvent request requestId
  match env.profiles request.profileName with
  | none => .fail (.ProfileNotFound request.profileName)
  | some profile =>
    if request.authenticatedCaller.isSome && profile.basicConstraintsCa then
      let _ ← await (.audit (event.failed (some "ca_profile_not_permitted")))
      .fail .ProfileNotPermitted
    else
      ofExcept .X509 profile.validate
      ofExcept .X509 (env.secureDefaults.validateProfile profile)
      checkApproval env event request
      checkRequest env event profile request
      let certificate ← buildCertificate env profile request requestId
      return (requestId, certificate)

/-- The rest of `issue`. -/
def commit (request : IssuanceRequest) (x : Uuid × Certificate) : CaM Certificate := do
  query (.createCertificate x.2)
  linkApproval env request x.2.id
  record (issuanceEvent request x.1)
  return x.2

/-- `issue` prepares and commits. -/
theorem issue_eq (request : IssuanceRequest) :
    issue env request = prepare env request >>= commit env request := by
  unfold issue prepare
  rw [Prog.bind_assoc]
  congr 1
  funext requestId
  dsimp only
  cases env.profiles request.profileName with
  | none => rfl
  | some profile =>
    dsimp only
    split_ifs
    · rfl
    · simp only [Prog.bind_assoc]
      rfl

section

variable {calls : Trace → Call → Prop} (hchecks : ∀ h e, e.checks = true → calls h e)

include hchecks

theorem does_checkApproval (event : AuditEvent) (request : IssuanceRequest) (h : Trace) :
    (checkApproval env event request).Does calls (fun _ h' => Grows h h' ∧
      (env.requireApproval = true → env.approvalRepo = true ∧
        ∃ id read, request.approvalRequestId = some id ∧
          Replied h' (.getRequest id) (some read) ∧ read.status = .Approved ∧
          read.certificateId = none)) h := by
  unfold checkApproval
  split
  · rename_i hrequire
    refine (Prog.does_pure _).mpr ⟨.refl h, fun h => ?_⟩
    simp [h] at hrequire
  · cases hid : request.approvalRequestId with
    | none => exact (Prog.does_fail _).mpr trivial
    | some id =>
      dsimp only
      split
      · exact (Prog.does_fail _).mpr trivial
      · rename_i hrepo
        rw [Prog.does_bind]
        refine does_query (hchecks _ _ rfl) fun read => ?_
        cases read with
        | none => exact (Prog.does_fail _).mpr trivial
        | some read =>
          dsimp only
          split_ifs with hstatus htype hcert
          · exact does_refuse (hchecks _ _ rfl)
          · exact does_refuse (hchecks _ _ rfl)
          · exact does_refuse (hchecks _ _ rfl)
          · refine (Prog.does_pure _).mpr ⟨grows_one rfl _, fun _ => ?_⟩
            refine ⟨by simpa using hrepo, id, read, rfl, ?_, not_not.mp hstatus, not_not.mp hcert⟩
            exact List.mem_append_right _ (List.mem_singleton_self _)

theorem does_checkRequest (event : AuditEvent) (profile : CertificateProfile)
    (request : IssuanceRequest) (h : Trace) :
    (checkRequest env event profile request).Does calls
      (fun _ h' => h' = h ∧ Accepted env profile request) h := by
  unfold checkRequest
  split
  · exact does_refuse (hchecks _ _ rfl)
  · rename_i hnames
    have hnames : profile.subjectAltNameRequired = true →
      request.subjectAltNames.isEmpty = false := by
      simpa using hnames
    split
    · rename_i csrDer hcsr
      unfold checkCsr
      rw [Prog.does_bind]
      refine does_ofOutcome fun parsed hparsed => ?_
      rw [Prog.does_bind]
      refine does_ofOutcome fun valid hvalid => ?_
      split_ifs with hsigned hkey
      · exact does_refuse (hchecks _ _ rfl)
      · exact does_refuse (hchecks _ _ rfl)
      · obtain rfl : valid = true := by simpa using hsigned
        refine (Prog.does_pure _).mpr ⟨rfl, hnames, fun der hder => ?_, fun hnone => ?_⟩
        · obtain rfl := Option.some.inj (hcsr.symm.trans hder)
          exact ⟨parsed, hparsed, hvalid, not_not.mp hkey⟩
        · cases hcsr.symm.trans hnone
    · rename_i hcsr
      split_ifs with hpossession
      · exact does_refuse (hchecks _ _ rfl)
      · refine (Prog.does_pure _).mpr ⟨rfl, hnames, fun der hder => ?_, fun _ => ?_⟩
        · cases hcsr.symm.trans hder
        · simpa using hpossession

theorem does_generateSerialNumber (h : Trace) :
    generateSerialNumber.Does calls (fun serial h' => Grows h h' ∧
      ∃ bytes, ⟨.randomBytes, .ok bytes⟩ ∈ h' ∧ serial = clearHighBit bytes.1) h := by
  unfold generateSerialNumber
  rw [Prog.does_bind, does_await]
  refine ⟨hchecks _ _ rfl, fun r => ?_⟩
  cases r with
  | error e => exact (Prog.does_fail _).mpr trivial
  | ok bytes =>
    refine (Prog.does_ofExcept _).mpr fun serial hserial => ⟨grows_one rfl _, bytes, ?_, ?_⟩
    · exact List.mem_append_right _ (List.mem_singleton_self _)
    · unfold serialNumberFromBytes at hserial
      split at hserial
      · cases hserial
      · split_ifs at hserial
        exact (Except.ok.inj hserial).symm

theorem does_signDer (algorithm : Crypto.Algorithm) (der : List UInt8) (h : Trace) :
    (signDer env algorithm der).Does calls (fun signature h' => Grows h h' ∧
      ∃ raw, env.encodeSignature algorithm raw = .ok signature) h := by
  unfold signDer
  rw [Prog.does_bind, does_await]
  refine ⟨hchecks _ _ rfl, fun r => ?_⟩
  cases r with
  | error e => exact (Prog.does_fail _).mpr trivial
  | ok raw => exact does_ofExcept fun _ hraw => ⟨grows_one rfl _, raw, hraw⟩

theorem does_buildCertificate (profile : CertificateProfile) (request : IssuanceRequest)
    (requestId : Uuid) (h : Trace) :
    (buildCertificate env profile request requestId).Does calls (fun cert h' => Grows h h' ∧
      (∃ bytes, ⟨.randomBytes, .ok bytes⟩ ∈ h' ∧ cert.serialNumber = clearHighBit bytes.1) ∧
      cert.content = some request.content ∧ cert.caId = env.caId ∧
      cert.tbs.serialNumber = cert.serialNumber ∧ cert.revoked = false ∧
      cert.requestId = some requestId ∧ Buildable env profile request) h := by
  unfold buildCertificate
  rw [Prog.does_bind]
  refine (does_generateSerialNumber hchecks h).mono fun serialNumber h₁ h₁spec => ?_
  obtain ⟨hgrow₁, bytes, hbytes, hserial⟩ := h₁spec
  rw [Prog.does_bind]
  refine does_ofExcept fun issuer hissuer => ?_
  rw [Prog.does_bind]
  refine does_ofExcept fun algorithm halgorithm => ?_
  rw [Prog.does_bind, does_await]
  refine ⟨hchecks _ _ rfl, fun notBefore => ?_⟩
  split
  · exact (Prog.does_fail _).mpr trivial
  · rename_i notAfter hnotAfter
    rw [Prog.does_bind]
    refine does_ofExcept fun keyId hkeyId => ?_
    split
    · exact (Prog.does_fail _).mpr trivial
    · rename_i hvalidity
      rw [Prog.does_bind]
      refine does_ofExcept fun der hder => ?_
      rw [Prog.does_bind]
      refine (does_signDer env hchecks _ _ _).mono fun signature h₂ h₂spec => ?_
      obtain ⟨hgrow₂, raw, hraw⟩ := h₂spec
      rw [Prog.does_bind, does_await]
      refine ⟨hchecks _ _ rfl, fun id => ?_⟩
      have hgrow : Grows h₁ (h₂ ++ [⟨.newUuid, id⟩]) :=
        ((grows_one rfl notBefore).trans hgrow₂).trans (grows_one rfl id)
      refine (Prog.does_pure _).mpr ⟨hgrow₁.trans hgrow, ⟨bytes, hgrow.mem hbytes, hserial⟩, ?_⟩
      rw [hserial] at hder
      exact ⟨rfl, rfl, rfl, rfl, rfl, issuer, algorithm, bytes, notBefore, notAfter,
        keyId, der, raw,
        signature, hissuer, halgorithm, hnotAfter, hvalidity, hkeyId, hder, hraw⟩

/-- What is prepared: a certificate for the request, which passed the checks. -/
structure Prepared (request : IssuanceRequest) (h h' : Trace) (x : Uuid × Certificate) : Prop where
  grows : Grows h h'
  serialNumber : ∃ bytes, ⟨.randomBytes, .ok bytes⟩ ∈ h' ∧
    x.2.serialNumber = clearHighBit bytes.1
  content : x.2.content = some request.content
  caId : x.2.caId = env.caId
  tbs_serialNumber : x.2.tbs.serialNumber = x.2.serialNumber
  not_revoked : x.2.revoked = false
  requestId : x.2.requestId = some x.1
  approved : env.requireApproval = true → env.approvalRepo = true ∧
    ∃ id read, request.approvalRequestId = some id ∧
      Replied h' (.getRequest id) (some read) ∧ read.status = .Approved ∧ read.certificateId = none
  profile : ∃ profile, env.profiles request.profileName = some profile ∧
    (request.authenticatedCaller.isSome && profile.basicConstraintsCa) = false ∧
    profile.validate = .ok () ∧ env.secureDefaults.validateProfile profile = .ok () ∧
    Accepted env profile request ∧ Buildable env profile request

/-- **Preparation** makes no change, and its certificate is the one asked for. -/
theorem does_prepare (request : IssuanceRequest) (h : Trace) :
    (prepare env request).Does calls (fun x h' => Prepared env request h h' x) h := by
  unfold prepare
  rw [Prog.does_bind]
  have hid : (requestIdOf request).Does calls (fun _ h' => Grows h h') h := by
    unfold requestIdOf
    split
    · exact (Prog.does_pure _).mpr (.refl h)
    · exact does_await.mpr ⟨hchecks _ _ rfl, fun _ => grows_one rfl _⟩
  refine hid.mono fun requestId h₁ hgrow₁ => ?_
  split
  · exact (Prog.does_fail _).mpr trivial
  · rename_i profile hprofile
    split
    · rw [Prog.does_bind, does_await]
      exact ⟨hchecks _ _ rfl, fun _ => (Prog.does_fail _).mpr trivial⟩
    · rename_i hcaller
      rw [Prog.does_bind]
      refine does_ofExcept fun _ hvalid => ?_
      rw [Prog.does_bind]
      refine does_ofExcept fun _ hpolicy => ?_
      rw [Prog.does_bind]
      refine (does_checkApproval env hchecks _ request _).mono fun _ h₂ h₂spec => ?_
      obtain ⟨hgrow₂, happroved⟩ := h₂spec
      rw [Prog.does_bind]
      refine (does_checkRequest env hchecks _ _ request _).mono fun _ h₃ h₃spec => ?_
      obtain ⟨rfl, haccepted⟩ := h₃spec
      rw [Prog.does_bind]
      refine (does_buildCertificate env hchecks _ request _ _).mono fun cert h₄ h₄spec => ?_
      obtain ⟨hgrow₄, hserial, hcontent, hcaId, htbs, hrevoked, hrequest, hbuild⟩ := h₄spec
      refine (Prog.does_pure _).mpr ⟨(hgrow₁.trans hgrow₂).trans hgrow₄, hserial, hcontent, hcaId,
        htbs, hrevoked, hrequest, fun hrequire => ?_, profile, hprofile, by simpa using hcaller,
        hvalid, hpolicy, haccepted, hbuild⟩
      obtain ⟨hrepo, id, read, happroval, hread, hstatus, hcert⟩ := happroved hrequire
      exact ⟨hrepo, id, read, happroval, hgrow₄.mem hread, hstatus, hcert⟩

/-- **Issuance**: the certificate that is stored is the one asked for. -/
theorem does_issue (request : IssuanceRequest) {h : Trace}
    (hfirst : ∀ c r, ⟨.db (.createCertificate c), r⟩ ∉ h)
    (hcreate : ∀ h' cert, Grows h h' → Issues env request h' cert →
      calls h' (.db (.createCertificate cert)))
    (hmark : ∀ h' id certificateId, calls h' (.db (.markRequestCompleted id certificateId))) :
    (issue env request).Does calls (fun _ _ => True) h := by
  rw [issue_eq, Prog.does_bind]
  refine (does_prepare env hchecks request h).mono fun x h₁ hprepared => ?_
  have hgrow := hprepared.grows
  unfold commit
  rw [Prog.does_bind]
  refine does_query (hcreate h₁ x.2 hgrow ⟨hprepared.content, hprepared.caId,
    hprepared.serialNumber, hprepared.tbs_serialNumber, hprepared.not_revoked,
    fun c r => hgrow.not_mem rfl (hfirst c r), fun hrequire => (hprepared.approved hrequire).2⟩)
    fun _ => ?_
  have hlink : (linkApproval env request x.2.id).Does calls (fun _ _ => True)
      (h₁ ++ [⟨.db (.createCertificate x.2), .ok ()⟩]) := by
    unfold linkApproval
    split
    · exact (Prog.does_pure _).mpr trivial
    · split
      · exact does_query (hmark _ _ _) fun _ => trivial
      · exact (Prog.does_pure _).mpr trivial
  rw [Prog.does_bind]
  refine hlink.mono fun _ h₅ _ => ?_
  rw [Prog.does_bind]
  exact does_record (hchecks _ _ rfl) fun _ => (Prog.does_pure _).mpr trivial

end

end Ostrich.Ca
