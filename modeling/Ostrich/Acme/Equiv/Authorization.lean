import Ostrich.Acme.Equiv.CaIntegration
import Ostrich.Acme.Equiv.Finalize
import Ostrich.Acme.Equiv.Rest
import Ostrich.Acme.Instance

/-!
# What stands behind a certificate

In every state of every run:

* the rows that a task has read are rows of the tables (`RowsInv`);
* an authorization is `valid` only after a validation task has confirmed a challenge for it, of a
  type that the identifier permits (`Validated`);
* the CA is asked for a certificate only for an order whose identifiers each have such an
  authorization (`Authorized`).
-/

namespace Ostrich.Acme

open Interleave Table

variable {env : Env} {w : AcmeWorld} {i n : ℕ} {t : Task} {e : Call} {c : Choice}

/-! ### Rows -/

/-- Keys are unique, and what was replied is known. -/
structure RowsInv (w : AcmeWorld) : Prop where
  keys : w.store.Keys
  known : ∀ j e r, .call j e r ∈ w.log → Known w.store e r

theorem rowsInv_initial : RowsInv (⟨{}, []⟩ : AcmeWorld) where
  keys := by constructor <;> simp [Table.Unique]
  known := by simp

theorem rowsInv_preserves (env : Env) (allowed : AcmeWorld → AcmeEvent → Prop) :
    (acme env).Preserves (acmeSpec env) allowed (fun _ => True) RowsInv where
  start _ _ h _ _ := ⟨h.keys, fun j e r hmem => h.known j e r (by simpa using hmem)⟩
  call := by
    intro w i n t e c _ _ h _ _ _ _
    refine ⟨h.keys.exec e c, fun j e' r hmem => ?_⟩
    rcases (System.call_mem_after _).mp hmem with hold | hnew
    · exact (h.known j e' r hold).evolves (exec_evolves e c w.store)
    · obtain ⟨rfl, rfl, hr⟩ := Event.call.inj hnew
      rw [eq_of_heq hr]
      exact known_exec e' c w.store
  finish _ _ h _ _ _ := ⟨h.keys, fun j e r hmem => h.known j e r (by simpa using hmem)⟩
  abort _ _ h _ _ := ⟨h.keys, fun j e r hmem => h.known j e r (by simpa using hmem)⟩

/-- What a task has read is known. -/
theorem RowsInv.known_of_replied (h : RowsInv w) {q : Query} {a : q.Result}
    (hr : Replied (w.history i) q a) : Known w.store (.db q) (.ok a) :=
  h.known i _ _ (World.mem_history.mp hr)

/-- Two rows for one name have the same columns. -/
theorem RowsInv.authorization_eq (h : RowsInv w) {authz row : AcmeAuthorization}
    (hauthz : w.store.HasAuthorization authz) (hrow : row ∈ w.store.authorizations)
    (hname : row.authorizationId = authz.authorizationId) : row.fixed = authz.fixed := by
  obtain ⟨r, hr, hfixed⟩ := hauthz
  have hid : row.authorizationId = r.authorizationId :=
    hname.trans (AcmeAuthorization.fixed_eq hfixed).2.1.symm
  rw [h.keys.authorizations.2 row hrow r hr hid]
  exact hfixed

/-! ### Authorizations -/

/-- A validation task has confirmed a challenge for the authorization's identifier: a wildcard name
by dns-01, an address by http-01. -/
structure ValidatedBy (w : AcmeWorld) (authz : AcmeAuthorization) (j : ℕ)
    (challenge : AcmeChallenge) : Prop where
  task : w.Started j (.validation challenge)
  authorization : challenge.authorizationId = authz.id
  confirmed : ∃ token thumbprint, .call j (.validate challenge.challengeType authz.identifierValue
    token thumbprint) (.ok true) ∈ w.log
  wildcard : authz.wildcard = true → challenge.challengeType = "dns-01"
  ip : authz.identifierType = "ip" → challenge.challengeType = "http-01"

def Validated (w : AcmeWorld) (authz : AcmeAuthorization) : Prop :=
  ∃ j challenge, ValidatedBy w authz j challenge

theorem Validated.congr {authz authz' : AcmeAuthorization} (h : Validated w authz)
    (hfixed : authz.fixed = authz'.fixed) : Validated w authz' := by
  obtain ⟨j, challenge, hby⟩ := h
  obtain ⟨hid, -, -, htype, hvalue, hwildcard⟩ := AcmeAuthorization.fixed_eq hfixed
  exact ⟨j, challenge, hby.task, hby.authorization.trans hid, hvalue ▸ hby.confirmed,
    hwildcard ▸ hby.wildcard, htype ▸ hby.ip⟩

/-- Later events change nothing about a validation. -/
theorem Validated.mono {w' : AcmeWorld} {authz : AcmeAuthorization} (h : Validated w authz)
    (hlog : ∀ ev ∈ w.log, ev ∈ w'.log) : Validated w' authz := by
  obtain ⟨j, challenge, hby⟩ := h
  obtain ⟨token, thumbprint, hconfirmed⟩ := hby.confirmed
  exact ⟨j, challenge, hby.task.imp fun _ hp => hlog _ hp, hby.authorization,
    ⟨token, thumbprint, hlog _ hconfirmed⟩, hby.wildcard, hby.ip⟩

theorem checkChallengePermitted_eq_ok {authz : AcmeAuthorization} {challengeType : String}
    (h : checkChallengePermitted authz challengeType = .ok ()) :
    (authz.wildcard = true → challengeType = "dns-01") ∧
      (authz.identifierType = "ip" → challengeType = "http-01") := by
  unfold checkChallengePermitted at h
  split_ifs at h with hwildcard hip
  constructor
  · intro hw
    by_contra hne
    exact hwildcard (by simp [hw, hne])
  · intro ht
    by_contra hne
    exact hip (by simp [ht, hne])

/-- `valid` authorizations are validated, in the table and in what tasks have read. -/
structure AuthzInv (w : AcmeWorld) : Prop where
  rows : ∀ row ∈ w.store.authorizations, row.status = "valid" → Validated w row
  lists : ∀ j orderId rows, .call j (.db (.listAuthorizationsByOrder orderId)) (.ok rows) ∈ w.log →
    ∀ row ∈ rows, row.status = "valid" → Validated w row

theorem AuthzInv.add (h : AuthzInv w) {evs : List AcmeEvent} (hevs : ∀ j e r, .call j e r ∉ evs) :
    AuthzInv (w.add evs) where
  rows row hrow hvalid := (h.rows row hrow hvalid).mono fun _ => List.mem_append_left _
  lists j orderId rows hmem row hrow hvalid := by
    rcases List.mem_append.mp hmem with hmem | hmem
    · exact (h.lists j orderId rows hmem row hrow hvalid).mono fun _ => List.mem_append_left _
    · exact absurd hmem (hevs _ _ _)

/-- The write of `valid` comes from a task that has confirmed a challenge. -/
theorem validated_of_write (hrows : RowsInv w) (hrun : w.Running i t) {name : String}
    (hcalls : callSpec env t (w.history i) (.db (.updateAuthorizationStatus name "valid")))
    {row : AcmeAuthorization} (hrow : row ∈ w.store.authorizations)
    (hname : row.authorizationId = name) : Validated w row := by
  obtain ⟨challenge, authz, rfl, hread, rfl, hstatus, -⟩ := hcalls
  obtain ⟨hid, hhas⟩ := hrows.known_of_replied hread
  rcases hstatus with ⟨-, hproven⟩ | hinvalid
  · obtain ⟨token, thumbprint, hconfirmed⟩ := hproven.confirmed
    have hpermitted := checkChallengePermitted_eq_ok hproven.permitted
    have hauthz : Validated w authz := ⟨i, challenge, hrun.started, hid.symm,
      ⟨token, thumbprint, World.mem_history.mp hconfirmed⟩, hpermitted.1, hpermitted.2⟩
    exact hauthz.congr (hrows.authorization_eq hhas hrow hname).symm
  · exact absurd hinvalid (by decide)

theorem AuthzInv.after (hrows : RowsInv w) (h : AuthzInv w) (hrun : w.Running i t)
    (hcalls : callSpec env t (w.history i) e) : AuthzInv ((acme env).after i n e c w) where
  rows := by
    have hmono {row : AcmeAuthorization} (hv : Validated w row) :
        Validated ((acme env).after i n e c w) row :=
      hv.mono fun _ => System.mem_after_of_mem _
    intro row hrow hvalid
    replace hrow : row ∈ (exec e c w.store).2.authorizations := hrow
    have hchange := exec_authorizations e c w.store
    generalize (exec e c w.store).2.authorizations = rows at hchange hrow
    cases hchange with
    | same => exact hmono (h.rows row hrow hvalid)
    | insert new hcreated _ _ =>
      rcases List.mem_append.mp hrow with hrow | hrow
      · exact hmono (h.rows row hrow hvalid)
      · -- a new authorization is `pending`
        obtain ⟨_, _, _, _, _, _, rfl⟩ := hcreated
        rw [List.mem_singleton.mp hrow, show new.status = "pending" from hcalls] at hvalid
        exact absurd hvalid (by decide)
    | update p f hupdated =>
      obtain ⟨name, status, rfl, rfl, rfl⟩ := hupdated
      obtain ⟨old, hold, rfl⟩ := mem_updateWhere.mp hrow
      split_ifs at hvalid ⊢ with hp
      · obtain rfl : status = "valid" := hvalid
        exact hmono ((validated_of_write hrows hrun hcalls hold (of_decide_eq_true hp)).congr rfl)
      · exact hmono (h.rows old hold hvalid)
  lists := by
    intro j orderId rows hmem row hrow hvalid
    have hmono {row : AcmeAuthorization} (hv : Validated w row) :
        Validated ((acme env).after i n e c w) row :=
      hv.mono fun _ => System.mem_after_of_mem _
    rcases (System.call_mem_after _).mp hmem with hold | hnew
    · exact hmono (h.lists j orderId rows hold row hrow hvalid)
    · obtain ⟨rfl, rfl, hr⟩ := Event.call.inj hnew
      obtain ⟨rfl, -⟩ := read_of_exec_ok rfl (eq_of_heq hr).symm
      have hstored := (List.mem_filter.mp ((List.mem_insertionSort _).mp hrow)).1
      exact hmono (h.rows row hstored hvalid)

theorem authzInv_preserves (env : Env) (allowed : AcmeWorld → AcmeEvent → Prop) :
    (acme env).Preserves (acmeSpec env) allowed (fun w => True ∧ RowsInv w) AuthzInv where
  start _ _ h _ _ := h.add (by simp)
  call _ hI h hrun _ hcalls _ := h.after hI.2 hrun hcalls
  finish _ _ h _ _ _ := h.add (by simp)
  abort _ _ h _ _ := h.add (by simp)

/-! ### Issuance -/

/-- The request is for an order whose identifiers have, one for each, an authorization of the order
that was validated. -/
def Authorized (env : Env) (w : AcmeWorld) (request : IssueCertificateRequest) : Prop :=
  ∃ order ∈ w.store.orders, request.requestId = order.id.toString ∧
    ∃ authzs, OneToOne env.nameFromAscii order.identifiers authzs ∧
      ∀ authz ∈ authzs, w.store.HasAuthorization authz ∧ authz.orderId = order.id ∧
        Validated w authz

/-- Every issuance request that was sent is authorized. -/
def IssueInv (env : Env) (w : AcmeWorld) : Prop :=
  ∀ j request r, .call j (.issueCertificate request) r ∈ w.log → Authorized env w request

theorem Authorized.mono {w' : AcmeWorld} {request : IssueCertificateRequest}
    (h : Authorized env w request) (hstore : w.store.Evolves w'.store)
    (hlog : ∀ ev ∈ w.log, ev ∈ w'.log) : Authorized env w' request := by
  obtain ⟨order, horder, hid, authzs, hone, hall⟩ := h
  obtain ⟨order', horder', hfixed⟩ := hstore.orders order horder
  obtain ⟨hoid, -, hids⟩ := AcmeOrder.fixed_eq hfixed
  refine ⟨order', horder', hoid ▸ hid, authzs, hids ▸ hone, fun authz hauthz => ?_⟩
  obtain ⟨hhas, hof, hvalidated⟩ := hall authz hauthz
  exact ⟨hstore.hasAuthorization hhas, hof.trans hoid.symm, hvalidated.mono hlog⟩

/-- What the checks of a finalize request give. -/
theorem checkFinalize_eq_ok {order : AcmeOrder} {authzs : List AcmeAuthorization}
    {challenges : List AcmeChallenge} {now : DateTime} {parsedCsr : X509.ParsedCsr}
    (h : checkFinalize env order authzs challenges now parsedCsr = .ok ()) :
    checkOrderFinalizable env.nameFromAscii order order.identifiers authzs challenges now = .ok () ∧
      validateCsrIdentifiers order.identifiers parsedCsr.subjectAlternativeNames = .ok () := by
  obtain ⟨_, hcheck, h⟩ := bind_eq_ok h
  exact ⟨hcheck, h⟩

/-- The request that a finalize task sends is authorized by what the task has read. -/
theorem authorized_of_calls (hrows : RowsInv w) (hauthz : AuthzInv w)
    {request : IssueCertificateRequest}
    (hcalls : callSpec env t (w.history i) (.issueCertificate request)) :
    Authorized env w request := by
  obtain ⟨_, _, order, authzs, _, _, -, hchecked, -, -, hrequest, -⟩ := hcalls
  obtain ⟨_, _, hreq⟩ := issueRequest_eq_ok hrequest
  obtain ⟨-, order', horder', hfixed⟩ := hrows.known_of_replied hchecked.order_read
  obtain ⟨hoid, -, hids⟩ := AcmeOrder.fixed_eq hfixed
  obtain ⟨_, _, _, -, hcheck⟩ := hchecked.checks
  obtain ⟨-, -, hone, husable⟩ :=
    (checkOrderFinalizable_eq_ok_iff _ _ _ _ _).mp (checkFinalize_eq_ok hcheck).1
  refine ⟨order', horder', hoid ▸ hreq.requestId, authzs, hids ▸ hone, fun authz hmem => ?_⟩
  obtain ⟨hof, hhas⟩ := hrows.known_of_replied hchecked.authzs_read authz hmem
  exact ⟨hhas, hof.trans hoid.symm, hauthz.lists i _ _
    (World.mem_history.mp hchecked.authzs_read) authz hmem (husable authz hmem).valid⟩

theorem issueInv_preserves (env : Env) (allowed : AcmeWorld → AcmeEvent → Prop) :
    (acme env).Preserves (acmeSpec env) allowed (fun w => True ∧ RowsInv w ∧ AuthzInv w)
      (IssueInv env) where
  start _ _ h _ _ j request r hmem :=
    (h j request r (by simpa using hmem)).mono (.refl _)
      fun _ => List.mem_append_left _
  call := by
    intro w i n t e c _ hI h _ _ hcalls _ j request r hmem
    have hmono {request : IssueCertificateRequest} (ha : Authorized env w request) :
        Authorized env ((acme env).after i n e c w) request :=
      ha.mono (exec_evolves e c w.store) fun _ => System.mem_after_of_mem _
    rcases (System.call_mem_after _).mp hmem with hold | hnew
    · exact hmono (h j request r hold)
    · obtain ⟨rfl, rfl, -⟩ := Event.call.inj hnew
      exact hmono (authorized_of_calls hI.2.1 hI.2.2 hcalls)
  finish _ _ h _ _ _ j request r hmem :=
    (h j request r (by simpa using hmem)).mono (.refl _)
      fun _ => List.mem_append_left _
  abort _ _ h _ _ j request r hmem :=
    (h j request r (by simpa using hmem)).mono (.refl _)
      fun _ => List.mem_append_left _

/-- Every issuance request of every run is authorized. -/
theorem issueInv_reach {cfg : AcmeConfig}
    (hreach : (acme env).Reach OnlyRequests (System.initial {}) cfg) : IssueInv env cfg.world := by
  have hpreserves := ((rowsInv_preserves env OnlyRequests).and
    (authzInv_preserves env OnlyRequests)).and (issueInv_preserves env OnlyRequests)
  have hinit : (RowsInv (⟨{}, []⟩ : AcmeWorld) ∧ AuthzInv ⟨{}, []⟩) ∧ IssueInv env ⟨{}, []⟩ :=
    ⟨⟨rowsInv_initial, ⟨by simp, by simp⟩⟩, by simp [IssueInv]⟩
  exact (hpreserves.reach (acme_meets env) hinit hreach).2.2

/-- **Domain-control safety**: when the check of finalize succeeds, that it does not depend on the
order of the rows, and that the CA is asked for a certificate only after each identifier of the
order has been validated on its own. -/
theorem domain_control (env : Env) :
    (∀ order ids authzs challenges now,
      checkOrderFinalizable env.nameFromAscii order ids authzs challenges now = .ok () ↔
        order.status = "ready" ∧ now < order.expires ∧ OneToOne env.nameFromAscii ids authzs ∧
        ∀ authz ∈ authzs, Usable challenges now authz) ∧
    (∀ order ids authzs authzs' challenges challenges' now, authzs.Perm authzs' →
      challenges.Perm challenges' →
      checkOrderFinalizable env.nameFromAscii order ids authzs challenges now
        = checkOrderFinalizable env.nameFromAscii order ids authzs' challenges' now) ∧
    ∀ cfg, (acme env).Reach OnlyRequests (System.initial {}) cfg → ∀ j request r,
      .call j (.issueCertificate request) r ∈ cfg.world.log →
      Authorized env cfg.world request := by
  refine ⟨checkOrderFinalizable_eq_ok_iff, ?_, fun cfg hreach => issueInv_reach hreach⟩
  intro order ids authzs authzs' challenges challenges' now hauthzs hchallenges
  exact checkOrderFinalizable_perm hauthzs hchallenges order ids now

open Instance

/-- Whether a certificate has been asked for. -/
def isIssueCall : AcmeEvent → Bool
  | .call _ (.issueCertificate _) _ => true
  | _ => false

/-- A run in which a certificate is asked for. -/
theorem issueCall_reached : ∃ cfg : AcmeConfig,
    (acme (wire orderMessages)).Reach OnlyRequests (System.initial {}) cfg ∧
      ∃ j request r, .call j (.issueCertificate request) r ∈ cfg.world.log := by
  have hrun : ((acme (wire orderMessages)).run onlyRequests
      (toReady ++ .arrive (.finalizeOrder ("order-" ++ uuid 20) [3]) :: steps 9 70 8)
      (System.initial {})).map (fun cfg => cfg.world.log.any isIssueCall) = some true := by
    decide +kernel
  obtain ⟨cfg, hcfg, hissue⟩ := Option.map_eq_some_iff.mp hrun
  obtain ⟨ev, hev, hissue⟩ := List.any_eq_true.mp hissue
  unfold isIssueCall at hissue
  split at hissue
  · exact ⟨cfg, System.reach_of_run onlyRequests_sound _ hcfg, _, _, _, hev⟩
  · cases hissue

/-- The authorizations behind the certificate of this run. -/
theorem domain_control_one_finalize : ∃ cfg : AcmeConfig, ∃ j request r,
    .call j (.issueCertificate request) r ∈ cfg.world.log ∧
      Authorized (wire orderMessages) cfg.world request := by
  obtain ⟨cfg, hreach, j, request, r, hcall⟩ := issueCall_reached
  exact ⟨cfg, j, request, r, hcall, (domain_control _).2.2 cfg hreach j request r hcall⟩

/-- The condition in terms of challenge rows: each identifier has an authorization with its key,
`valid` and unexpired, with a `valid` challenge of a permitted type. -/
def SatisfiedByChallenges (nameFromAscii : String → Option Bool) (ids : List Identifier)
    (authzs : List AcmeAuthorization) (challenges : List AcmeChallenge) (now : DateTime) : Prop :=
  ∀ id ∈ ids, ∃ authz ∈ authzs,
    (∃ a, parseOrderIdentifier nameFromAscii id = .ok a ∧ authz.key = a.key) ∧
    authz.status = "valid" ∧ now < authz.expires ∧
    ∃ challenge ∈ challenges, challenge.authorizationId = authz.id ∧
      challenge.status = "valid" ∧ checkChallengePermitted authz challenge.challengeType = .ok ()

/-- Finalize looks at the challenge rows of addresses only: a `valid` authorization of a DNS name
needs no challenge row. -/
theorem finalizable_without_challenge :
    ¬∀ (order : AcmeOrder) (authzs : List AcmeAuthorization) (challenges : List AcmeChallenge)
      (now : DateTime),
      checkOrderFinalizable (fun _ => some true) order order.identifiers authzs challenges now
          = .ok () ↔
        SatisfiedByChallenges (fun _ => some true) order.identifiers authzs challenges now := by
  intro h
  let order : AcmeOrder :=
    ⟨⟨1⟩, "order-1", ⟨0⟩, "ready", [⟨"dns", "a.b"⟩], none, none, 10, none, none, 0, 0⟩
  let authz : AcmeAuthorization := ⟨⟨2⟩, "authz-2", ⟨1⟩, "dns", "a.b", "valid", 10, false, 0, 0⟩
  have hok : checkOrderFinalizable (fun _ => some true) order order.identifiers [authz] [] 5
      = .ok () := by decide +kernel
  obtain ⟨_, -, -, -, -, challenge, hmem, -⟩ :=
    (h order [authz] [] 5).mp hok ⟨"dns", "a.b"⟩ (List.mem_singleton_self _)
  exact absurd hmem List.not_mem_nil

end Ostrich.Acme
