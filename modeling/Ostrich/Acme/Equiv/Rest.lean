import Ostrich.Acme.Equiv.Repository

/-!
# What the handlers do

`callSpec env` says, task by task, which calls a task makes and what it has seen before it makes
them; `acme_meets` proves it of every handler.  Only the calls that change accounts, orders,
authorizations or challenges, the validation of a challenge, the spawning of a task and the
issuance of a certificate are restricted; all other calls are `Quiet`.
-/

namespace Ostrich.Acme

open Interleave X509

/-- The calls and replies of a task. -/
abbrev Trace := History Call Reply

/-! ### What a task has seen -/

/-- The query was answered with `a`. -/
def Replied (h : Trace) (q : Query) (a : q.Result) : Prop := ⟨.db q, .ok a⟩ ∈ h

/-- Calls that no invariant is about: reads, nonces, clock, fresh ids, audit, circuit breaker. -/
def Quiet : Call → Prop
  | .db (.createAccount ..) | .db (.updateAccount ..) | .db (.createOrder ..)
  | .db (.updateOrderStatus ..) | .db (.updateOrderCertificate ..) | .db (.createAuthorization ..)
  | .db (.updateAuthorizationStatus ..) | .db (.createChallenge ..)
  | .db (.updateChallengeStatus ..) | .validate .. | .issueCertificate _ | .spawnValidation _ =>
    False
  | _ => True

/-- The validator has confirmed a challenge. -/
def Confirmed (h : Trace) : Prop :=
  ∃ challengeType domain token thumbprint,
    ⟨.validate challengeType domain token thumbprint, .ok true⟩ ∈ h

/-- The statements of a validation task after its validator has confirmed the challenge. -/
def Query.recordsValidation : Query → Prop
  | .updateChallengeStatus .. | .updateAuthorizationStatus .. | .listAuthorizationsByOrder _
  | .updateOrderStatus .. => True
  | _ => False

/-- A statement failed after the validator had confirmed the challenge. -/
def FailedToRecord (h : Trace) : Prop :=
  ∃ h₁ q e h₂, h = h₁ ++ ⟨.db q, .error e⟩ :: h₂ ∧ q.recordsValidation ∧ Confirmed h₁

/-- The task has not yet written the status of a challenge. -/
def NoChallengeWrite (h : Trace) : Prop :=
  ∀ challengeId status validatedAt errorDetail r,
    ⟨.db (.updateChallengeStatus challengeId status validatedAt errorDetail), r⟩ ∉ h

/-- The task has not yet written the status of an authorization. -/
def NoAuthorizationWrite (h : Trace) : Prop :=
  ∀ authorizationId status r, ⟨.db (.updateAuthorizationStatus authorizationId status), r⟩ ∉ h

/-- A challenge of this type, which is permitted, has proven control of the identifier. -/
structure Proven (h : Trace) (challenge : AcmeChallenge) (authz : AcmeAuthorization) : Prop where
  authz_read : Replied h (.findAuthorizationByUuid challenge.authorizationId) (some authz)
  permitted : checkChallengePermitted authz challenge.challengeType = .ok ()
  confirmed : ∃ token thumbprint,
    ⟨.validate challenge.challengeType authz.identifierValue token thumbprint, .ok true⟩ ∈ h

/-- The finalize request for the order `id` has passed its checks, with these rows. -/
structure Checked (env : Env) (h : Trace) (id : String) (order : AcmeOrder)
    (authzs : List AcmeAuthorization) (csrDer : List UInt8) : Prop where
  order_read : Replied h (.findOrderById id) (some order)
  authzs_read : Replied h (.listAuthorizationsByOrder order.id) authzs
  checks : ∃ challenges now parsedCsr, parseCsr env.asn1 csrDer = .ok parsedCsr ∧
    checkFinalize env order authzs challenges now parsedCsr = .ok ()

/-- The task has set the order to `processing`. -/
def Processing (h : Trace) (orderId : Uuid) : Prop :=
  ∃ row, Replied h (.updateOrderStatus orderId "processing") row

/-- No certificate has been issued to the task. -/
def NotIssued (h : Trace) : Prop :=
  ∀ request certificateId, ⟨.issueCertificate request, .ok certificateId⟩ ∉ h

/-! ### What the tasks call -/

section

variable (env : Env)

/-- The status writes of a finalize request. -/
def FinalizeWrites (h : Trace) (orderId : Uuid) (status : String) : Prop :=
  status = "processing" ∨ (status = "ready" ∧ env.caClient = none) ∨
    (status = "valid" ∧ env.caClient ≠ none ∧ Processing h orderId)

/-- The calls that a task makes after the history `h`. -/
def callSpec (t : Task) (h : Trace) : Call → Prop
  | .db (.createAccount accountId ..) => ∃ id : Uuid, accountId = "acct-" ++ id.toString
  | .db (.updateAccount accountId ..) => ∃ id : Uuid, accountId = id.toString
  | .db (.createOrder _ _ status ..) => status = "pending"
  | .db (.createAuthorization _ _ _ _ status ..) => status = "pending"
  | .db (.createChallenge _ _ _ _ status) => status = "pending"
  | .db (.updateOrderStatus orderId status) =>
    (∃ id body order authzs csrDer, t = .finalizeOrder id body ∧
      Checked env h id order authzs csrDer ∧ orderId = order.id ∧
      FinalizeWrites env h orderId status) ∨
    (∃ challenge authz order, t = .validation challenge ∧ status = "ready" ∧
      Replied h (.findAuthorizationByUuid challenge.authorizationId) (some authz) ∧
      Replied h (.findOrderByUuid authz.orderId) (some order) ∧ orderId = order.id)
  | .db (.updateAuthorizationStatus authorizationId status) =>
    ∃ challenge authz, t = .validation challenge ∧
      Replied h (.findAuthorizationByUuid challenge.authorizationId) (some authz) ∧
      authorizationId = authz.authorizationId ∧
      (status = "valid" ∧ Proven h challenge authz ∨ status = "invalid") ∧
      (FailedToRecord h ∨ NoAuthorizationWrite h)
  | .db (.updateChallengeStatus challengeId status ..) =>
    (∃ body row, t = .respondToChallenge challengeId body ∧ status = "processing" ∧
      Replied h (.findChallengeById challengeId) (some row)) ∨
    (∃ challenge, t = .validation challenge ∧ challengeId = challenge.challengeId ∧
      (status = "valid" ∨ status = "invalid") ∧ (FailedToRecord h ∨ NoChallengeWrite h))
  | .spawnValidation challenge =>
    ∃ id body row, t = .respondToChallenge id body ∧
      Replied h (.findChallengeById id) (some challenge) ∧
      Replied h (.updateChallengeStatus id "processing" none none) row ∧
      ∀ other, ⟨.spawnValidation other, ()⟩ ∉ h
  | .issueCertificate request =>
    ∃ id body order authzs csrDer account, t = .finalizeOrder id body ∧
      Checked env h id order authzs csrDer ∧ env.caClient ≠ none ∧ Processing h order.id ∧
      issueRequest env.asn1 order.id csrDer account = .ok request ∧ NotIssued h
  | _ => True

/-- How a task ends: an account was updated if `updateAccount` returns a response. -/
def resultSpec (t : Task) (r : Except Failure (Option Response)) (h : Trace) : Prop :=
  ∀ id body response, t = .updateAccount id body → r = .ok response →
    ∃ contact status row, Replied h (.updateAccount id contact status) row

/-- The specification of the handlers. -/
def acmeSpec : Spec Call Reply Failure (Option Response) Task where
  calls := callSpec env
  result := resultSpec

end

/-! ### Rules for the parts of a handler -/

section

variable {calls : Trace → Call → Prop} {h : Trace} {α β : Type}

theorem wp_await_bind {e : Call} {f : Reply e → Handler β}
    {result : Except Failure β → Trace → Prop} :
    (await e >>= f).Wp calls result h ↔ calls h e ∧ ∀ r, (f r).Wp calls result (h ++ [⟨e, r⟩]) :=
  Iff.rfl

/-- A statement whose error ends the handler. -/
theorem wp_query_bind {q : Query} {f : q.Result → Handler β}
    {result : Except Failure β → Trace → Prop} :
    (query q >>= f).Wp calls result h ↔ calls h (.db q) ∧
      (∀ a, (f a).Wp calls result (h ++ [⟨.db q, .ok a⟩])) ∧
      ∀ e, result (.error (.error (.Database e))) (h ++ [⟨.db q, .error e⟩]) := by
  rw [Prog.wp_bind]
  refine and_congr Iff.rfl ⟨fun hr => ⟨fun a => hr (.ok a), fun e => hr (.error e)⟩, fun hr r => ?_⟩
  cases r with
  | ok a => exact hr.1 a
  | error e => exact hr.2 e

/-- A fallible computation whose error ends the handler. -/
theorem wp_liftResult_bind {x : Result α} {f : α → Handler β}
    {result : Except Failure β → Trace → Prop} :
    (liftResult x >>= f).Wp calls result h ↔
      (∀ a, x = .ok a → (f a).Wp calls result h) ∧
      ∀ e, x = .error e → result (.error (.error e)) h := by
  cases x with
  | ok a =>
    refine ⟨fun hr => ⟨fun b hb => ?_, nofun⟩, fun hr => hr.1 a rfl⟩
    cases hb
    exact hr
  | error e =>
    refine ⟨fun hr => ⟨nofun, fun e' he => ?_⟩, fun hr => hr.2 e rfl⟩
    cases he
    exact hr

/-- A part whose calls are all quiet. -/
theorem wp_quiet_bind {p : Handler α} {f : α → Handler β}
    {result : Except Failure β → Trace → Prop} (hp : p.Within Quiet)
    (hcalls : ∀ h e, Quiet e → calls h e)
    (hok : ∀ a new, (∀ s ∈ new, Quiet s.1) → (f a).Wp calls result (h ++ new))
    (herror : ∀ e new, (∀ s ∈ new, Quiet s.1) → result (.error e) (h ++ new)) :
    (p >>= f).Wp calls result h := by
  rw [Prog.wp_bind]
  refine hp.wp hcalls fun r new hnew => ?_
  cases r with
  | ok a => exact hok a new hnew
  | error e => exact herror e new hnew

end

/-! ### Quiet parts -/

section

variable {α : Type}

theorem quiet_liftResult (x : Result α) : (liftResult x).Within Quiet := by
  cases x <;> exact trivial

theorem quiet_liftOutcome (x : Outcome Error α) : (liftOutcome x).Within Quiet := by
  cases x <;> exact trivial

theorem quiet_query {q : Query} (hq : Quiet (.db q)) : (query q).Within Quiet := by
  refine ⟨hq, fun r => ?_⟩
  cases r <;> exact trivial

theorem quiet_consumeNonce (nonce : String) : (consumeNonce nonce).Within Quiet := by
  refine ⟨trivial, fun r => ?_⟩
  match r with
  | .ok true | .ok false | .error _ => exact trivial

theorem quiet_generateNonce : generateNonce.Within Quiet :=
  ⟨trivial, fun _ => ⟨trivial, fun _ => ⟨trivial, fun _ => trivial⟩⟩⟩

variable (env : Env)

theorem quiet_verifyJwsAccount (body : List UInt8) (url : String) :
    (verifyJwsAccount env body url).Within Quiet := by
  refine (quiet_liftResult _).bind fun (envelope, header) => ?_
  refine (quiet_consumeNonce _).bind fun _ => ?_
  dsimp only
  cases header.kid with
  | none => exact trivial
  | some kid =>
    refine (quiet_liftResult _).bind fun accountId => ?_
    refine (quiet_query (by trivial)).bind fun account => ?_
    cases account with
    | none => exact trivial
    | some account =>
      refine (quiet_liftResult _).bind fun _ => ?_
      exact (quiet_liftResult _).bind fun _ => trivial

theorem quiet_validateJwsWithAccount (fromJson : FromJson α) (body : List UInt8) (url : String) :
    (validateJwsWithAccount env fromJson body url).Within Quiet := by
  refine (quiet_verifyJwsAccount env body url).bind fun v => ?_
  exact (quiet_liftResult _).bind fun _ => trivial

theorem quiet_validateJwsNewAccount (fromJson : FromJson α) (body : List UInt8) (url : String) :
    (validateJwsNewAccount env fromJson body url).Within Quiet := by
  refine (quiet_liftResult _).bind fun (envelope, header) => ?_
  refine (quiet_consumeNonce _).bind fun _ => ?_
  cases header.jwk with
  | none => exact trivial
  | some jwk =>
    refine (quiet_liftResult _).bind fun _ => ?_
    refine (quiet_liftResult _).bind fun _ => ?_
    exact (quiet_liftResult _).bind fun _ => trivial

theorem quiet_existingAccountResponse (account : AcmeAccount) :
    (existingAccountResponse env account).Within Quiet :=
  quiet_generateNonce.bind fun _ => trivial

theorem quiet_getOrder (id : String) : (getOrder env id).Within Quiet := by
  refine (quiet_query (by trivial)).bind fun order => ?_
  cases order with
  | none => exact trivial
  | some order =>
    refine (quiet_query (by trivial)).bind fun authzs => ?_
    exact quiet_generateNonce.bind fun _ => trivial

theorem quiet_getAuthorization (id : String) : (getAuthorization env id).Within Quiet := by
  refine (quiet_query (by trivial)).bind fun authz => ?_
  cases authz with
  | none => exact trivial
  | some authz =>
    refine (quiet_query (by trivial)).bind fun challenges => ?_
    exact quiet_generateNonce.bind fun _ => trivial

theorem quiet_listIpChallenges (authzs : List AcmeAuthorization) :
    (listIpChallenges authzs).Within Quiet := by
  induction authzs with
  | nil => exact trivial
  | cons authz authzs ih =>
    rw [listIpChallenges]
    split_ifs
    · refine (quiet_query (by trivial)).bind fun rows => ?_
      exact ih.bind fun more => trivial
    · exact ih

end

/-! ### Accounts and orders -/

section

variable (env : Env)

theorem callSpec_quiet (t : Task) (h : Trace) (e : Call) (he : Quiet e) : callSpec env t h e := by
  cases e with
  | db q => cases q <;> first | exact trivial | exact he.elim
  | newUuid | now | recordAudit | isRequestAllowed | validate => exact trivial
  | issueCertificate | spawnValidation => exact he.elim

/-- A task whose calls are all quiet. -/
theorem wp_quiet {α : Type} {p : Handler α} (hp : p.Within Quiet) (t : Task) (h : Trace) :
    p.Wp (callSpec env t) (fun _ _ => True) h :=
  hp.wp (callSpec_quiet env t) fun _ _ _ => trivial

theorem wp_newAccount (body : List UInt8) :
    (newAccount env body).Wp (callSpec env (.newAccount body)) (fun _ _ => True) [] := by
  refine wp_quiet_bind (quiet_validateJwsNewAccount env _ _ _) (callSpec_quiet env _) ?_
    fun _ _ _ => trivial
  intro validated h _
  refine wp_query_bind.mpr ⟨trivial, fun existing => ?_, fun _ => trivial⟩
  cases existing with
  | some existing => exact wp_quiet env (quiet_existingAccountResponse env existing) _ _
  | none =>
    dsimp only
    split_ifs
    · exact trivial
    · exact trivial
    · refine ⟨trivial, fun id => ⟨⟨id, rfl⟩, fun r => ?_⟩⟩
      cases r with
      | ok row =>
        refine wp_quiet env (quiet_generateNonce.bind fun _ => ?_) _ _
        exact trivial
      | error e =>
        refine wp_query_bind.mpr ⟨trivial, fun existing => ?_, fun _ => trivial⟩
        cases existing with
        | none => exact trivial
        | some existing => exact wp_quiet env (quiet_existingAccountResponse env existing) _ _

theorem wp_updateAccount (id : String) (body : List UInt8) :
    (updateAccount env id body).Wp (callSpec env (.updateAccount id body))
      (fun r h => ∀ response, r = .ok response →
        ∃ contact status row, Replied h (.updateAccount id contact status) row) [] := by
  refine wp_quiet_bind (quiet_validateJwsWithAccount env _ _ _) (callSpec_quiet env _) ?_
    fun _ _ _ _ hr => by cases hr
  intro validated h _
  dsimp only
  split_ifs with hid
  · exact fun _ hr => by cases hr
  · refine wp_query_bind.mpr ⟨⟨_, not_not.mp hid⟩, fun row => ?_, fun _ _ hr => by cases hr⟩
    refine wp_quiet_bind quiet_generateNonce (callSpec_quiet env _) ?_
      fun _ _ _ _ hr => by cases hr
    intro nonce new _ response _
    refine ⟨_, _, row, ?_⟩
    simp [Replied]

theorem wp_createChallenges {result : Except Failure Unit → Trace → Prop} (t : Task) (id : Uuid)
    (types : List String) (h : Trace) (hresult : ∀ r h, result r h) :
    (createChallenges id types).Wp (callSpec env t) result h := by
  induction types generalizing h with
  | nil => exact hresult _ _
  | cons type types ih =>
    refine ⟨trivial, fun _ => ⟨trivial, fun _ => ?_⟩⟩
    exact wp_query_bind.mpr ⟨rfl, fun _ => ih _, fun _ => hresult _ _⟩

theorem wp_createAuthorizations {result : Except Failure (List String) → Trace → Prop} (t : Task)
    (id : Uuid) (identifiers : List AuthzIdentifier) (h : Trace) (hresult : ∀ r h, result r h) :
    (createAuthorizations env id identifiers).Wp (callSpec env t) result h := by
  induction identifiers generalizing h result with
  | nil => exact hresult _ _
  | cons identifier identifiers ih =>
    refine ⟨trivial, fun _ => ⟨trivial, fun _ => ?_⟩⟩
    refine wp_query_bind.mpr ⟨rfl, fun _ => ?_, fun _ => hresult _ _⟩
    rw [Prog.wp_bind]
    refine wp_createChallenges env t _ _ _ fun r h => ?_
    cases r with
    | error e => exact hresult _ _
    | ok _ =>
      rw [Prog.wp_bind]
      refine ih _ fun r h => ?_
      cases r <;> exact hresult _ _

theorem wp_newOrder (body : List UInt8) :
    (newOrder env body).Wp (callSpec env (.newOrder body)) (fun _ _ => True) [] := by
  refine wp_quiet_bind (quiet_validateJwsWithAccount env _ _ _) (callSpec_quiet env _) ?_
    fun _ _ _ => trivial
  intro validated h _
  dsimp only
  cases validateOrderIdentifiers env.nameFromAscii validated.payload.identifiers with
  | error e => exact ⟨trivial, fun _ => trivial⟩
  | ok identifiers =>
    refine ⟨trivial, fun _ => ⟨trivial, fun _ => ?_⟩⟩
    refine wp_query_bind.mpr ⟨rfl, fun order => ?_, fun _ => trivial⟩
    rw [Prog.wp_bind]
    refine wp_createAuthorizations env _ _ _ _ fun r h => ?_
    cases r with
    | error e => exact trivial
    | ok urls =>
      refine ⟨trivial, fun _ => wp_quiet env (quiet_generateNonce.bind fun _ => ?_) _ _⟩
      exact trivial

end

/-! ### Challenges -/

section

variable (env : Env)

theorem wp_respondToChallenge (id : String) (body : List UInt8) :
    (respondToChallenge env id body).Wp (callSpec env (.respondToChallenge id body))
      (fun _ _ => True) [] := by
  refine wp_quiet_bind (quiet_validateJwsWithAccount env _ _ _) (callSpec_quiet env _) ?_
    fun _ _ _ => trivial
  intro validated h hquiet
  rw [List.nil_append]
  refine wp_query_bind.mpr ⟨trivial, fun row => ?_, fun _ => trivial⟩
  cases row with
  | none => exact trivial
  | some challenge =>
    refine wp_query_bind.mpr ⟨.inl ⟨body, challenge, rfl, rfl, by simp [Replied]⟩,
      fun updated => ?_,
      fun _ => trivial⟩
    refine wp_query_bind.mpr ⟨trivial, fun authz => ?_, fun _ => trivial⟩
    refine ⟨⟨id, body, updated, rfl, by simp [Replied], by simp [Replied], ?_⟩, fun _ => ?_⟩
    · intro other hmem
      have : ⟨.spawnValidation other, ()⟩ ∈ h := by simpa using hmem
      exact hquiet _ this
    · refine wp_quiet env (quiet_generateNonce.bind fun _ => ?_) _ _
      exact trivial

/-- How the fallible part of a validation ends: an error comes before all writes, or from one of
them. -/
def InnerResult (r : Except Failure Unit) (h : Trace) : Prop :=
  ∀ e, r = .error e → FailedToRecord h ∨ NoChallengeWrite h ∧ NoAuthorizationWrite h

theorem innerResult_ok (h : Trace) : InnerResult (.ok ()) h := nofun

theorem innerResult_failed {h : Trace} {q : Query} (hq : q.recordsValidation) (hc : Confirmed h)
    (r : Except Failure Unit) (e : DbError) : InnerResult r (h ++ [⟨.db q, .error e⟩]) :=
  fun _ _ => .inl ⟨h, q, e, [], rfl, hq, hc⟩

theorem wp_recordValidation {challenge : AcmeChallenge} {authz : AcmeAuthorization}
    {order : AcmeOrder} {h : Trace} (hproven : Proven h challenge authz)
    (horder : Replied h (.findOrderByUuid authz.orderId) (some order))
    (hchallenge : NoChallengeWrite h) (hauthz : NoAuthorizationWrite h) :
    (recordValidation challenge authz order).Wp (callSpec env (.validation challenge)) InnerResult
      h := by
  obtain ⟨token, thumbprint, hconfirmed⟩ := hproven.confirmed
  have hc (new : Trace) : Confirmed (h ++ new) :=
    ⟨_, _, token, thumbprint, List.mem_append_left new hconfirmed⟩
  have hread (new : Trace) :
      Replied (h ++ new) (.findAuthorizationByUuid challenge.authorizationId) (some authz) :=
    List.mem_append_left new hproven.authz_read
  refine ⟨trivial, fun now => ?_⟩
  refine wp_query_bind.mpr ⟨?_, fun row => ?_, fun e => innerResult_failed (by trivial) (hc _) _ e⟩
  · -- the first status write of the task
    refine .inr ⟨challenge, rfl, rfl, .inl rfl, .inr fun _ _ _ _ _ hmem => ?_⟩
    simp only [List.mem_append, List.mem_singleton] at hmem
    rcases hmem with hmem | hmem
    · exact hchallenge _ _ _ _ _ hmem
    · cases hmem
  rw [List.append_assoc]
  refine wp_query_bind.mpr ⟨?_, fun row' => ?_, fun e => innerResult_failed (by trivial) (hc _) _ e⟩
  · refine ⟨challenge, authz, rfl, hread _, rfl, .inl ⟨rfl, hread _, hproven.permitted, token,
      thumbprint, List.mem_append_left _ hconfirmed⟩, .inr fun _ _ _ hmem => ?_⟩
    simp only [List.mem_append, List.mem_singleton] at hmem
    rcases hmem with hmem | hmem | hmem
    · exact hauthz _ _ _ hmem
    · cases hmem
    · cases hmem
  rw [List.append_assoc]
  refine wp_query_bind.mpr ⟨trivial, fun authzs => ?_, fun e =>
    innerResult_failed (by trivial) (hc _) _ e⟩
  rw [List.append_assoc]
  dsimp only
  split_ifs
  · refine wp_query_bind.mpr ⟨.inr ⟨challenge, authz, order, rfl, rfl, hread _,
      List.mem_append_left _ horder, rfl⟩, fun _ => innerResult_ok _, ?_⟩
    exact fun e => innerResult_failed (by trivial) (hc _) _ e
  · exact innerResult_ok _

theorem wp_validateChallengeInner (challenge : AcmeChallenge) :
    (validateChallengeInner challenge).Wp (callSpec env (.validation challenge)) InnerResult
      [] := by
  have hnone {r : Except Failure Unit} {h : Trace} (hc : NoChallengeWrite h)
      (ha : NoAuthorizationWrite h) : InnerResult r h := fun _ _ => .inr ⟨hc, ha⟩
  refine wp_query_bind.mpr ⟨trivial, fun authz => ?_, fun e => ?_⟩
  swap
  · refine hnone ?_ ?_ <;> simp [NoChallengeWrite, NoAuthorizationWrite]
  cases authz with
  | none => refine hnone ?_ ?_ <;> simp [NoChallengeWrite, NoAuthorizationWrite]
  | some authz =>
    refine wp_liftResult_bind.mpr ⟨fun _ hpermitted => ?_, fun e _ => ?_⟩
    swap
    · refine hnone ?_ ?_ <;> simp [NoChallengeWrite, NoAuthorizationWrite]
    refine wp_query_bind.mpr ⟨trivial, fun order => ?_, fun e => ?_⟩
    swap
    · refine hnone ?_ ?_ <;> simp [NoChallengeWrite, NoAuthorizationWrite]
    cases order with
    | none => refine hnone ?_ ?_ <;> simp [NoChallengeWrite, NoAuthorizationWrite]
    | some order =>
      refine wp_query_bind.mpr ⟨trivial, fun account => ?_, fun e => ?_⟩
      swap
      · refine hnone ?_ ?_ <;> simp [NoChallengeWrite, NoAuthorizationWrite]
      cases account with
      | none => refine hnone ?_ ?_ <;> simp [NoChallengeWrite, NoAuthorizationWrite]
      | some account =>
        dsimp only [runValidator]
        split_ifs
        swap
        · refine hnone ?_ ?_ <;> simp [NoChallengeWrite, NoAuthorizationWrite]
        refine ⟨trivial, fun verdict => ?_⟩
        match verdict with
        | .error e => refine hnone ?_ ?_ <;> simp [NoChallengeWrite, NoAuthorizationWrite]
        | .ok false => refine hnone ?_ ?_ <;> simp [NoChallengeWrite, NoAuthorizationWrite]
        | .ok true =>
          refine wp_recordValidation env ⟨?_, hpermitted, ?_⟩ ?_ ?_ ?_
          · simp [Replied]
          · exact ⟨challenge.token, account.jwkThumbprint, by simp⟩
          · simp [Replied]
          · simp [NoChallengeWrite]
          · simp [NoAuthorizationWrite]

theorem FailedToRecord.append {h : Trace} (hf : FailedToRecord h) (new : Trace) :
    FailedToRecord (h ++ new) := by
  obtain ⟨h₁, q, e, h₂, rfl, hq, hc⟩ := hf
  exact ⟨h₁, q, e, h₂ ++ new, by simp, hq, hc⟩

theorem wp_recordInvalid (challenge : AcmeChallenge) (e : Error) {h : Trace}
    (hh : FailedToRecord h ∨ NoChallengeWrite h ∧ NoAuthorizationWrite h)
    {result : Except Failure Unit → Trace → Prop} (hresult : ∀ r h, result r h) :
    (recordInvalid challenge e).Wp (callSpec env (.validation challenge)) result h := by
  refine ⟨.inr ⟨challenge, rfl, rfl, .inr rfl, hh.imp id And.left⟩, fun _ => ?_⟩
  refine ⟨trivial, fun r => ?_⟩
  match r with
  | .error _ => exact hresult _ _
  | .ok none => exact hresult _ _
  | .ok (some authz) =>
    refine ⟨⟨challenge, authz, rfl, by simp [Replied], rfl, .inr rfl, ?_⟩, fun _ => hresult _ _⟩
    rcases hh with hf | ⟨-, ha⟩
    · rw [List.append_assoc]
      exact .inl (hf.append _)
    · refine .inr fun _ _ _ hmem => ?_
      simp only [List.mem_append, List.mem_singleton] at hmem
      rcases hmem with (hmem | hmem) | hmem
      · exact ha _ _ _ hmem
      · cases hmem
      · cases hmem

theorem quiet_outcomeRecorded (challengeId : String) :
    (outcomeRecorded challengeId).Within Quiet := by
  refine ⟨trivial, fun r => ?_⟩
  match r with
  | .ok (some _) | .ok none | .error _ => exact trivial

theorem wp_runChallengeValidation (challenge : AcmeChallenge) :
    (runChallengeValidation challenge).Wp (callSpec env (.validation challenge))
      (fun _ _ => True) [] := by
  unfold runChallengeValidation
  rw [Prog.wp_bind, Prog.wp_attempt]
  refine (wp_validateChallengeInner env challenge).mono fun r h hr => ?_
  have hrest (h : Trace) : Prog.Wp (callSpec env (.validation challenge)) (fun _ _ => True)
      (outcomeRecorded challenge.challengeId >>= fun recorded => recordAudit
        (validateChallengeAuditEvent challenge.challengeId (recorded = some true))) h := by
    refine wp_quiet env ((quiet_outcomeRecorded _).bind fun _ => ?_) _ _
    exact ⟨trivial, fun _ => trivial⟩
  dsimp only
  rw [Prog.wp_bind]
  match r with
  | .ok () => exact hrest h
  | .error .panic => exact trivial
  | .error (.error e) =>
    refine wp_recordInvalid env challenge e (hr _ rfl) fun r h => ?_
    cases r with
    | ok _ => exact hrest h
    | error _ => exact trivial

end

/-! ### Finalization -/

section

variable {env : Env} {h : Trace}

theorem wp_liftOutcome_bind {α β : Type} {calls : Trace → Call → Prop} {x : Outcome Error α}
    {f : α → Handler β} {result : Except Failure β → Trace → Prop}
    (hok : ∀ a, x = .ok a → (f a).Wp calls result h) (herror : ∀ e, result (.error e) h) :
    (liftOutcome x >>= f).Wp calls result h := by
  cases x with
  | ok a => exact hok a rfl
  | err e => exact herror _
  | panic => exact herror _
  | hang => exact herror _

theorem openCsr_eq_ok {csr : String} {csrDer : List UInt8} {parsedCsr : ParsedCsr}
    (hcsr : openCsr env csr = .ok (csrDer, parsedCsr)) :
    parseCsr env.asn1 csrDer = .ok parsedCsr := by
  unfold openCsr at hcsr
  split_ifs at hcsr
  split at hcsr
  · cases hcsr
  · rename_i der _
    unfold parseCsrFor at hcsr
    cases hparse : parseCsr env.asn1 der with
    | ok parsed =>
      rw [hparse] at hcsr
      dsimp only [Outcome.ok_bind] at hcsr
      split at hcsr <;> cases hcsr
      exact hparse
    | err e => rw [hparse] at hcsr; cases hcsr
    | panic => rw [hparse] at hcsr; cases hcsr
    | hang => rw [hparse] at hcsr; cases hcsr

theorem Checked.append {id : String} {order : AcmeOrder} {authzs : List AcmeAuthorization}
    {csrDer : List UInt8} (hc : Checked env h id order authzs csrDer) (new : Trace) :
    Checked env (h ++ new) id order authzs csrDer where
  order_read := List.mem_append_left _ hc.order_read
  authzs_read := List.mem_append_left _ hc.authzs_read
  checks := hc.checks

theorem Processing.append {orderId : Uuid} (hp : Processing h orderId) (new : Trace) :
    Processing (h ++ new) orderId :=
  hp.imp fun _ hrow => List.mem_append_left _ hrow

variable {id account : String} {body csrDer : List UInt8} {order : AcmeOrder}
variable {authzs : List AcmeAuthorization} {request : IssueCertificateRequest}

/-- The retry loop makes its calls with the checks passed, and ends at the first certificate. -/
theorem wp_issueWithRetry {result : Except Failure String → Trace → Prop}
    (hca : env.caClient ≠ none) (hchecked : Checked env h id order authzs csrDer)
    (hprocessing : Processing h order.id)
    (hrequest : issueRequest env.asn1 order.id csrDer account = .ok request) (hissued : NotIssued h)
    (hresult : ∀ r new, result r (h ++ new)) (left attempt : ℕ) :
    (issueWithRetry request left attempt).Wp (callSpec env (.finalizeOrder id body)) result h := by
  induction left generalizing attempt h with
  | zero =>
    rw [issueWithRetry]
    refine wp_await_bind.mpr ⟨⟨id, body, order, authzs, csrDer, account, rfl, hchecked, hca,
      hprocessing, hrequest, hissued⟩, fun reply => ?_⟩
    match reply with
    | .ok certificateId => exact hresult _ _
    | .error status =>
      dsimp only
      split_ifs <;> exact hresult _ _
  | succ left ih =>
    rw [issueWithRetry]
    refine wp_await_bind.mpr ⟨⟨id, body, order, authzs, csrDer, account, rfl, hchecked, hca,
      hprocessing, hrequest, hissued⟩, fun reply => ?_⟩
    match reply with
    | .ok certificateId => exact hresult _ _
    | .error status =>
      dsimp only
      split_ifs
      · exact hresult _ _
      · refine ih (hchecked.append _) (hprocessing.append _) ?_ (fun r new => ?_) _
        · intro request' certificateId hmem
          rcases List.mem_append.mp hmem with hmem | hmem
          · exact hissued _ _ hmem
          · cases List.mem_singleton.mp hmem
        · rw [List.append_assoc]
          exact hresult r _

theorem wp_caFinalizeOrder {result : Except Failure Uuid → Trace → Prop} {maxRetries : ℕ}
    (hca : env.caClient ≠ none) (hchecked : Checked env h id order authzs csrDer)
    (hprocessing : Processing h order.id) (hissued : NotIssued h)
    (hresult : ∀ r new, result r (h ++ new)) :
    (caFinalizeOrder env maxRetries order.id csrDer account).Wp
      (callSpec env (.finalizeOrder id body)) result h := by
  refine wp_liftOutcome_bind (fun request hrequest => ?_) fun e => by simpa using hresult _ []
  refine wp_await_bind.mpr ⟨trivial, fun allowed => ?_⟩
  cases allowed with
  | false => exact hresult _ _
  | true =>
    rw [if_neg (by decide), Prog.wp_bind]
    refine wp_issueWithRetry hca (hchecked.append _) (hprocessing.append _) hrequest ?_ ?_ _ _
    · intro request' certificateId hmem
      rcases List.mem_append.mp hmem with hmem | hmem
      · exact hissued _ _ hmem
      · cases List.mem_singleton.mp hmem
    · intro r new
      rw [List.append_assoc]
      cases r with
      | error e => exact hresult _ _
      | ok issued =>
        dsimp only
        cases env.parseUuid issued with
        | none => exact hresult _ _
        | some certificateId =>
          refine wp_query_bind.mpr ⟨trivial, fun _ => ?_, fun _ => ?_⟩
          · rw [List.append_assoc]
            refine wp_query_bind.mpr ⟨?_, fun _ => ?_, fun _ => ?_⟩
            · exact .inl ⟨id, body, order, authzs, csrDer, rfl, hchecked.append _, rfl,
                .inr (.inr ⟨rfl, hca, hprocessing.append _⟩)⟩
            · rw [List.append_assoc]
              exact hresult _ _
            · rw [List.append_assoc]
              exact hresult _ _
          · rw [List.append_assoc]
            exact hresult _ _

variable (env)

theorem wp_finalizeOrder (id : String) (body : List UInt8) :
    (finalizeOrder env id body).Wp (callSpec env (.finalizeOrder id body)) (fun _ _ => True)
      [] := by
  refine wp_quiet_bind (quiet_validateJwsWithAccount env _ _ _) (callSpec_quiet env _) ?_
    fun _ _ _ => trivial
  intro validated h hquiet
  rw [List.nil_append]
  refine wp_liftOutcome_bind ?_ fun _ => trivial
  rintro ⟨csrDer, parsedCsr⟩ hcsr
  refine wp_query_bind.mpr ⟨trivial, fun row => ?_, fun _ => trivial⟩
  cases row with
  | none => exact trivial
  | some order =>
    dsimp only
    split_ifs
    · exact trivial
    refine wp_query_bind.mpr ⟨trivial, fun authzs => ?_, fun _ => trivial⟩
    refine wp_quiet_bind (quiet_listIpChallenges authzs) (callSpec_quiet env _) ?_
      fun _ _ _ => trivial
    intro challenges new hnew
    refine wp_await_bind.mpr ⟨trivial, fun now => ?_⟩
    cases hcheck : checkFinalize env order authzs challenges now parsedCsr with
    | error e => exact ⟨trivial, fun _ => trivial⟩
    | ok _ =>
      have hchecked : Checked env (h ++ [⟨.db (.findOrderById id), .ok (some order)⟩]
          ++ [⟨.db (.listAuthorizationsByOrder order.id), .ok authzs⟩] ++ new ++ [⟨.now, now⟩])
          id order authzs csrDer :=
        ⟨by simp [Replied], by simp [Replied], challenges, now, parsedCsr, openCsr_eq_ok hcsr,
          hcheck⟩
      refine wp_query_bind.mpr ⟨.inl ⟨id, body, order, authzs, csrDer, rfl, hchecked, rfl,
        .inl rfl⟩, fun row => ?_, fun _ => trivial⟩
      cases hca : env.caClient with
      | none =>
        exact ⟨.inl ⟨id, body, order, authzs, csrDer, rfl, hchecked.append _, rfl,
          .inr (.inl ⟨rfl, hca⟩)⟩, fun _ => trivial⟩
      | some maxRetries =>
        dsimp only
        rw [Prog.wp_bind]
        refine wp_caFinalizeOrder (hca ▸ by simp) (hchecked.append _) ⟨row, by simp [Replied]⟩ ?_ ?_
        · intro request certificateId hmem
          simp only [List.mem_append, List.mem_singleton] at hmem
          rcases hmem with ((((hmem | hmem) | hmem) | hmem) | hmem) | hmem
          · exact hquiet _ hmem
          · cases hmem
          · cases hmem
          · exact hnew _ hmem
          · cases hmem
          · cases hmem
        · intro r new'
          cases r with
          | error e => exact trivial
          | ok _ =>
            refine wp_query_bind.mpr ⟨trivial, fun row => ?_, fun _ => trivial⟩
            cases row with
            | none => exact trivial
            | some row =>
              refine wp_quiet env (quiet_generateNonce.bind fun _ => ?_) _ _
              exact trivial

/-- **The handlers meet their specification.** -/
theorem acme_meets : (acme env).Meets (acmeSpec env) := by
  intro t
  have hother {α : Type} {f : α → Option Response} {p : Handler α}
      (hp : p.Wp (callSpec env t) (fun _ _ => True) [])
      (ht : ∀ id body, t ≠ .updateAccount id body) :
      (f <$> p).Wp (callSpec env t) (resultSpec t) [] := by
    rw [Prog.wp_map]
    exact hp.mono fun r h _ id body response heq => absurd heq (ht id body)
  cases t with
  | getNewNonce head =>
    refine hother (wp_quiet env (quiet_generateNonce.bind fun _ => ?_) _ _) (by simp)
    exact trivial
  | newAccount body => exact hother (wp_newAccount env body) (by simp)
  | newOrder body => exact hother (wp_newOrder env body) (by simp)
  | getOrder id => exact hother (wp_quiet env (quiet_getOrder env id) _ _) (by simp)
  | postAsGetOrder id body =>
    refine hother (wp_quiet env ((quiet_verifyJwsAccount env _ _).bind fun _ => ?_) _ _) (by simp)
    exact quiet_getOrder env id
  | getAuthorization id => exact hother (wp_quiet env (quiet_getAuthorization env id) _ _) (by simp)
  | postAsGetAuthorization id body =>
    refine hother (wp_quiet env ((quiet_verifyJwsAccount env _ _).bind fun _ => ?_) _ _) (by simp)
    exact quiet_getAuthorization env id
  | respondToChallenge id body => exact hother (wp_respondToChallenge env id body) (by simp)
  | finalizeOrder id body => exact hother (wp_finalizeOrder env id body) (by simp)
  | validation challenge => exact hother (wp_runChallengeValidation env challenge) (by simp)
  | updateAccount id body =>
    refine (Prog.wp_map ..).mpr ((wp_updateAccount env id body).mono fun r h hr => ?_)
    intro id' body' response heq hok
    obtain ⟨rfl, rfl⟩ := Task.updateAccount.inj heq
    cases r with
    | error e => cases hok
    | ok response' => exact hr response' rfl

end

end Ostrich.Acme
