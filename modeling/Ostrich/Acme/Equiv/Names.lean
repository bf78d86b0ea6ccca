import Ostrich.Acme.Equiv.Authorization
import Ostrich.Acme.Equiv.CaIntegration

/-!
# The names of a certificate

`names_authorized_iff`: the names of an issuance request that finalize sends are the identifiers of
the order exactly when the subject of the CSR is empty, has no common name, or has the name of an
identifier as its (last) common name.  Another common name passes every check and is forwarded to
the CA (`foreign_common_name`).
-/

namespace Ostrich.Acme

open Interleave X509

variable {env : Env} {w : AcmeWorld}

/-- The names of the request are the identifiers of its order if and only if the subject of the
CSR is authorized. -/
def NamesDecided (env : Env) (w : AcmeWorld) (request : IssueCertificateRequest) : Prop :=
  ∃ order ∈ w.store.orders, request.requestId = order.id.toString ∧
    ∃ csr, env.asn1.certReqFromDer request.csrDer = .ok csr ∧
      (NamesAuthorized order.identifiers request ↔
        SubjectAuthorized env.asn1 order.identifiers csr.subject)

theorem NamesDecided.mono {w' : AcmeWorld} {request : IssueCertificateRequest}
    (h : NamesDecided env w request) (hstore : w.store.Evolves w'.store) :
    NamesDecided env w' request := by
  obtain ⟨order, horder, hid, csr, hcsr, hiff⟩ := h
  obtain ⟨order', horder', hfixed⟩ := hstore.orders order horder
  obtain ⟨hoid, -, hids⟩ := AcmeOrder.fixed_eq hfixed
  exact ⟨order', horder', hoid ▸ hid, csr, hcsr, hids ▸ hiff⟩

/-- The identifiers of an order that passes the checks of finalize are DNS names and addresses. -/
theorem idType_of_checkFinalize {order : AcmeOrder} {authzs : List AcmeAuthorization}
    {challenges : List AcmeChallenge} {now : DateTime} {parsedCsr : ParsedCsr}
    (h : checkFinalize env order authzs challenges now parsedCsr = .ok ()) :
    ∀ id ∈ order.identifiers, id.idType = "dns" ∨ id.idType = "ip" := by
  obtain ⟨-, -, ⟨expected, hexpected, -⟩, -⟩ :=
    (checkOrderFinalizable_eq_ok_iff _ _ _ _ _).mp (checkFinalize_eq_ok h).1
  exact idType_of_validate hexpected

/-- The request of a CSR that passes the checks of finalize. -/
theorem namesAuthorized_iff_of_checks (hempty : EmptyNames env.asn1) {order : AcmeOrder}
    {authzs : List AcmeAuthorization} {challenges : List AcmeChallenge} {now : DateTime}
    {parsedCsr : ParsedCsr} {csrDer : List UInt8} {account : String}
    {request : IssueCertificateRequest} (hparse : parseCsr env.asn1 csrDer = .ok parsedCsr)
    (hcheck : checkFinalize env order authzs challenges now parsedCsr = .ok ())
    (hrequest : issueRequest env.asn1 order.id csrDer account = .ok request) :
    ∃ csr, env.asn1.certReqFromDer csrDer = .ok csr ∧
      (NamesAuthorized order.identifiers request ↔
        SubjectAuthorized env.asn1 order.identifiers csr.subject) := by
  obtain ⟨csr, parsedCsr', hreq⟩ := issueRequest_eq_ok hrequest
  obtain rfl := Outcome.ok.inj (hparse.symm.trans hreq.parsed)
  exact ⟨csr, hreq.certReq, namesAuthorized_iff hempty hreq (idType_of_checkFinalize hcheck)
    (checkFinalize_eq_ok hcheck).2⟩

/-- Every issuance request that was sent. -/
def NamesInv (env : Env) (w : AcmeWorld) : Prop :=
  ∀ j request r, .call j (.issueCertificate request) r ∈ w.log → NamesDecided env w request

theorem namesInv_preserves (hempty : EmptyNames env.asn1) :
    (acme env).Preserves (acmeSpec env) OnlyRequests (fun w => True ∧ RowsInv w)
      (NamesInv env) where
  start _ _ h _ _ j request r hmem := h j request r (by simpa using hmem)
  call := by
    intro w i n t e c _ hI h _ _ hcalls _ j request r hmem
    have hmono {request : IssueCertificateRequest} (hd : NamesDecided env w request) :
        NamesDecided env ((acme env).after i n e c w) request :=
      hd.mono (exec_evolves e c w.store)
    rcases (System.call_mem_after _).mp hmem with hold | hnew
    · exact hmono (h j request r hold)
    · obtain ⟨rfl, rfl, -⟩ := Event.call.inj hnew
      obtain ⟨_, _, order, _, csrDer, _, -, hchecked, -, -, hrequest, -⟩ := hcalls
      obtain ⟨_, _, parsedCsr, hparse, hcheck⟩ := hchecked.checks
      obtain ⟨csr, hcsr, hiff⟩ := namesAuthorized_iff_of_checks hempty hparse hcheck hrequest
      obtain ⟨_, _, hreq⟩ := issueRequest_eq_ok hrequest
      -- the order that the task has read is in the table
      obtain ⟨-, order', horder', hfixed⟩ := hI.2.known_of_replied hchecked.order_read
      obtain ⟨hoid, -, hids⟩ := AcmeOrder.fixed_eq hfixed
      exact hmono ⟨order', horder', hoid ▸ hreq.requestId, csr, hreq.csrDer ▸ hcsr, hids ▸ hiff⟩
  finish _ _ h _ _ _ j request r hmem := h j request r (by simpa using hmem)
  abort _ _ h _ _ j request r hmem := h j request r (by simpa using hmem)

/-- **The names of a certificate**: for every order and CSR that pass the checks of finalize, and
for every request that is sent to the CA in any run, the names of the request are the identifiers
of the order if and only if the subject of the CSR is authorized. -/
theorem names_authorized_iff (env : Env) (hempty : EmptyNames env.asn1) :
    (∀ order authzs challenges now csrDer parsedCsr account request,
      parseCsr env.asn1 csrDer = .ok parsedCsr →
      checkFinalize env order authzs challenges now parsedCsr = .ok () →
      issueRequest env.asn1 order.id csrDer account = .ok request →
      ∃ csr, env.asn1.certReqFromDer csrDer = .ok csr ∧
        (NamesAuthorized order.identifiers request ↔
          SubjectAuthorized env.asn1 order.identifiers csr.subject)) ∧
    ∀ cfg, (acme env).Reach OnlyRequests (System.initial {}) cfg → ∀ j request r,
      .call j (.issueCertificate request) r ∈ cfg.world.log →
      NamesDecided env cfg.world request := by
  constructor
  · intro order authzs challenges now csrDer parsedCsr account request hparse hcheck hrequest
    exact namesAuthorized_iff_of_checks hempty hparse hcheck hrequest
  · intro cfg hreach
    have hpreserves := (rowsInv_preserves env OnlyRequests).and (namesInv_preserves hempty)
    have hinit : RowsInv (⟨{}, []⟩ : AcmeWorld) ∧ NamesInv env ⟨{}, []⟩ :=
      ⟨rowsInv_initial, by simp [NamesInv]⟩
    exact (hpreserves.reach (acme_meets env) hinit hreach).2.2

/-! ### Runs -/

open Instance

/-- The reader of this development reads an empty name as one without attributes. -/
theorem emptyNames_derReader : EmptyNames Reader.derReader := by
  intro csrDer csr der name hcsr hisEmpty hder hname
  obtain ⟨p, hp, h⟩ := bind_eq_ok hcsr
  obtain ⟨subject, hsubject, h⟩ := bind_eq_ok h
  obtain rfl := Except.ok.inj h
  obtain rfl := Except.ok.inj hder
  obtain rfl := Except.ok.inj (hsubject.symm.trans hname)
  exact List.isEmpty_iff.mp hisEmpty

/-- The names of the certificate of `issueCall_reached`. -/
theorem names_authorized_iff_one_finalize : ∃ cfg : AcmeConfig, ∃ j request r,
    .call j (.issueCertificate request) r ∈ cfg.world.log ∧
      NamesDecided (wire orderMessages) cfg.world request := by
  obtain ⟨cfg, hreach, j, request, r, hcall⟩ := issueCall_reached
  exact ⟨cfg, j, request, r, hcall,
    (names_authorized_iff (wire orderMessages) emptyNames_derReader).2 cfg hreach j request r hcall⟩

/-- The messages of `orderMessages` with a CSR for the common name `evil.b`. -/
def foreignMessages : List Message :=
  orderMessages.set 3 { url := "order/order-" ++ uuid 20 ++ "/finalize", nonce := 4,
                        kid := some ("acct-" ++ uuid 10),
                        finalize := some ⟨Base64.encode
                          (csr [101, 118, 105, 108, 46, 98] [[97, 46, 98]])⟩ }

/-- A certificate with this common name was issued. -/
def issuedFor (cn : String) : AcmeEvent → Bool
  | .call _ (.issueCertificate request) (.ok _) => request.subject.commonName = some cn
  | _ => false

/-- An order for `a.b` gets a certificate for the common name `evil.b`. -/
theorem foreign_common_name : ∃ cfg : AcmeConfig,
    (acme (wire foreignMessages)).Reach OnlyRequests (System.initial {}) cfg ∧
    ∃ j request certificateId,
      .call j (.issueCertificate request) (.ok certificateId) ∈ cfg.world.log ∧
      ∀ order ∈ cfg.world.store.orders, ¬NamesAuthorized order.identifiers request := by
  have hrun : ((acme (wire foreignMessages)).run onlyRequests
      (toReady ++ .arrive (.finalizeOrder ("order-" ++ uuid 20) [3]) :: steps 9 70 8)
      (System.initial {})).map (fun cfg => cfg.world.log.any (issuedFor "evil.b") &&
        cfg.world.store.orders.all fun o => o.identifiers = [⟨"dns", "a.b"⟩]) = some true := by
    decide +kernel
  obtain ⟨cfg, hcfg, hchecks⟩ := Option.map_eq_some_iff.mp hrun
  obtain ⟨hissued, horders⟩ := Bool.and_eq_true_iff.mp hchecks
  refine ⟨cfg, System.reach_of_run onlyRequests_sound _ hcfg, ?_⟩
  obtain ⟨ev, hev, hissued⟩ := List.any_eq_true.mp hissued
  unfold issuedFor at hissued
  split at hissued
  · refine ⟨_, _, _, hev, fun order horder hnames => ?_⟩
    obtain ⟨id, hid, hsame⟩ := hnames.commonName "evil.b" (of_decide_eq_true hissued)
    rw [of_decide_eq_true (List.all_eq_true.mp horders order horder), List.mem_singleton] at hid
    rw [hid] at hsame
    exact absurd hsame (by unfold SameName; decide)
  · cases hissued

end Ostrich.Acme
