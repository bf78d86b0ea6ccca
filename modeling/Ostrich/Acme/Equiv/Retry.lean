import Ostrich.Acme.Equiv.Finalize
import Ostrich.Acme.Equiv.Rest
import Ostrich.Acme.Instance

/-!
# The order after a finalize request that failed

A finalize request that runs by itself is its checks (`finalizeChecks`) followed by the write of
`processing` and the issuance (`finalizeRest`).  The handler puts `ready` back only if no CA client
is configured; every other failure after that write leaves the order in `processing`.

Main results:
* `status_kept_iff`: a request that failed without a certificate keeps the status of its order
  exactly if it is `Retryable`: the checks refuse it, the write of `processing` does not reach the
  database, or there is no CA client and the write of `ready` reaches the database;
* `stuck_in_processing`: a refusal by the CA leaves the order in `processing`.
-/

namespace Ostrich.Acme

open Interleave Prog Table

variable {α β : Type}

/-! ### Runs of a handler by itself -/

/-- A run of a handler by itself. -/
abbrev Run (α : Type) := Solo Call Reply Failure α Store Choice

/-- A statement and then the rest, or the error of the statement. -/
theorem solo_query {q : Query} {f : q.Result → Handler α} {cs : List Choice} {s : Store}
    {run : Run α} (h : (query q >>= f).solo exec cs s = some run) :
    ∃ c cs', cs = c :: cs' ∧
      ((∃ e, (q.exec c.fault c.drawn s).1 = .error e ∧ run = ⟨.error (.error (.Database e)),
          [⟨.db q, .error e⟩], (q.exec c.fault c.drawn s).2, cs'⟩) ∨
        ∃ a rest, (q.exec c.fault c.drawn s).1 = .ok a ∧
          (f a).solo exec cs' (q.exec c.fault c.drawn s).2 = some rest ∧
          run = { rest with history := ⟨.db q, .ok a⟩ :: rest.history }) := by
  unfold query at h
  rw [bind_assoc] at h
  obtain ⟨c, cs', rest, rfl, hrest, rfl⟩ := solo_perform h
  refine ⟨c, cs', rfl, ?_⟩
  have hreply : (exec (.db q) c s).1 = (q.exec c.fault c.drawn s).1 := rfl
  cases hexec : (q.exec c.fault c.drawn s).1 with
  | error e =>
    rw [hreply, hexec] at hrest
    obtain rfl := Option.some.inj hrest
    exact .inl ⟨e, rfl, by rw [hreply, hexec]; rfl⟩
  | ok a =>
    rw [hreply, hexec] at hrest
    exact .inr ⟨a, rest, rfl, hrest, by rw [hreply, hexec]⟩

theorem solo_liftOutcome {x : Outcome Error α} {f : α → Handler β} {cs : List Choice} {s : Store}
    {run : Run β} (h : (liftOutcome x >>= f).solo exec cs s = some run) :
    (∃ e, run = ⟨.error e, [], s, cs⟩) ∨ ∃ a, x = .ok a ∧ (f a).solo exec cs s = some run := by
  cases x with
  | ok a => exact .inr ⟨a, rfl, h⟩
  | err e => exact .inl ⟨_, (Option.some.inj h).symm⟩
  | panic => exact .inl ⟨_, (Option.some.inj h).symm⟩
  | hang => exact .inl ⟨_, (Option.some.inj h).symm⟩

/-- Quiet calls keep the orders. -/
theorem orders_of_quiet {e : Call} (he : Quiet e) (c : Choice) (s : Store) :
    (exec e c s).2.orders = s.orders := by
  have hchange := exec_orders e c s
  generalize (exec e c s).2.orders = orders at hchange ⊢
  cases hchange with
  | same => rfl
  | insert row hcreated =>
    obtain ⟨_, _, _, _, _, _, rfl⟩ := hcreated
    exact he.elim
  | update p f hupdated =>
    obtain ⟨_, _, ⟨_, rfl, -⟩ | ⟨_, _, rfl, -⟩⟩ := hupdated
    · exact he.elim
    · exact he.elim

theorem orders_of_within {p : Handler α} (hp : p.Within Quiet) {cs : List Choice} {s : Store}
    {run : Run α} (h : p.solo exec cs s = some run) : run.store.orders = s.orders :=
  hp.solo (R := fun s s' : Store => s'.orders = s.orders) (fun _ => rfl)
    (fun h h' => h'.trans h) (fun _ c s he => orders_of_quiet he c s) h

/-! ### The two parts of a finalize request -/

/-- What the checks hand over: account, CSR, order and authorizations. -/
abbrev CheckedOrder := Uuid × List UInt8 × AcmeOrder × List AcmeAuthorization

section

variable (env : Env)

/-- The part of `finalizeOrder` before it changes the order. -/
def finalizeChecks (id : String) (body : List UInt8) : Handler CheckedOrder := do
  let validated ← validateJwsWithAccount env env.finalizeRequest body
    (env.baseUrl ++ "/acme/order/" ++ id ++ "/finalize")
  let (csrDer, parsedCsr) ← liftOutcome (openCsr env validated.payload.csr)
  match ← query (.findOrderById id) with
  | none => raise (.Malformed ("Order not found: " ++ id))
  | some dbOrder =>
    if dbOrder.accountId ≠ validated.accountId then
      raise (.Unauthorized "Order belongs to different account")
    else
      let dbAuthzs ← query (.listAuthorizationsByOrder dbOrder.id)
      let ipChallenges ← listIpChallenges dbAuthzs
      let now ← utcNow
      match checkFinalize env dbOrder dbAuthzs ipChallenges now parsedCsr with
      | .error e =>
        recordAudit (finalizeRefusalAuditEvent validated.accountId.toString dbOrder.orderId e)
        raise e
      | .ok () => return (validated.accountId, csrDer, dbOrder, dbAuthzs)

/-- The part that writes `processing` and issues the certificate. -/
def finalizeRest (id : String) : CheckedOrder → Handler Response
  | (accountId, csrDer, dbOrder, dbAuthzs) => do
    let _ ← query (.updateOrderStatus dbOrder.id "processing")
    match env.caClient with
    | none =>
      let _ ← tryQuery (.updateOrderStatus dbOrder.id "ready")
      raise (.ServerInternal "CA integration not configured")
    | some maxRetries =>
      let _ ← caFinalizeOrder env maxRetries dbOrder.id csrDer accountId.toString
      match ← query (.findOrderById id) with
      | none => raise (.ServerInternal ("Order disappeared during finalization: " ++ id))
      | some validOrder =>
        let authorizationUrls := dbAuthzs.map fun authz => authzUrl env authz.authorizationId
        let nonce ← generateNonce
        return { status := 200, replayNonce := nonce,
                 body := .order (mapDbOrderToService validOrder authorizationUrls env.baseUrl) }

theorem finalizeOrder_eq (id : String) (body : List UInt8) :
    finalizeOrder env id body = finalizeChecks env id body >>= finalizeRest env id := by
  unfold finalizeOrder finalizeChecks
  simp only [bind_assoc]
  congr 1
  funext validated
  congr 1
  funext csr
  obtain ⟨csrDer, parsedCsr⟩ := csr
  simp only
  congr 1
  funext dbOrder
  cases dbOrder with
  | none => rfl
  | some dbOrder =>
    dsimp only
    split_ifs
    · rfl
    · simp only [bind_assoc]
      congr 1
      funext dbAuthzs
      congr 1
      funext ipChallenges
      congr 1
      funext now
      cases checkFinalize env dbOrder dbAuthzs ipChallenges now parsedCsr with
      | error e => rfl
      | ok _ => rfl

theorem quiet_finalizeChecks (id : String) (body : List UInt8) :
    (finalizeChecks env id body).Within Quiet := by
  refine (quiet_validateJwsWithAccount env _ _ _).bind fun validated => ?_
  refine (quiet_liftOutcome _).bind fun (csrDer, parsedCsr) => ?_
  refine (quiet_query (by trivial)).bind fun dbOrder => ?_
  cases dbOrder with
  | none => exact trivial
  | some dbOrder =>
    dsimp only
    split_ifs
    · exact trivial
    · refine (quiet_query (by trivial)).bind fun dbAuthzs => ?_
      refine (quiet_listIpChallenges _).bind fun ipChallenges => ?_
      refine ⟨trivial, fun now => ?_⟩
      show Within Quiet (match checkFinalize env dbOrder dbAuthzs ipChallenges now parsedCsr with
        | .error e => _
        | .ok () => _)
      cases checkFinalize env dbOrder dbAuthzs ipChallenges now parsedCsr with
      | error e => exact ⟨trivial, fun _ => trivial⟩
      | ok _ => exact trivial

end

/-! ### The status of the order -/

/-- The stored status of the order with this ACME id. -/
def statusOf (id : String) (s : Store) : Option String :=
  (s.orders.find? (·.orderId = id)).map (·.status)

section

variable {env : Env} {id : String} {body : List UInt8} {cs : List Choice} {s : Store}

/-- The checks hand over the order that is stored under the id, and it is `ready`. -/
theorem order_of_checks {accountId : Uuid} {csrDer : List UInt8} {dbOrder : AcmeOrder}
    {dbAuthzs : List AcmeAuthorization} {h : Trace} {s' : Store} {cs' : List Choice}
    (hrun : (finalizeChecks env id body).solo exec cs s =
      some ⟨.ok (accountId, csrDer, dbOrder, dbAuthzs), h, s', cs'⟩) :
    s'.orders = s.orders ∧ s.orders.find? (·.orderId = id) = some dbOrder ∧
      dbOrder.status = "ready" := by
  refine ⟨orders_of_within (quiet_finalizeChecks env id body) hrun, ?_⟩
  unfold finalizeChecks at hrun
  rcases solo_bind hrun with ⟨e, -, hres⟩ | ⟨validated, h₁, s₁, cs₁, run₁, hjws, hrun₁, heq⟩
  · cases hres
  have horders : s₁.orders = s.orders :=
    orders_of_within (quiet_validateJwsWithAccount env _ _ _) hjws
  obtain ⟨hres, -⟩ := Solo.mk.inj heq
  rcases solo_liftOutcome hrun₁ with ⟨e, rfl⟩ | ⟨⟨csr, parsedCsr⟩, -, hrun₂⟩
  · cases hres
  obtain ⟨c, cs₂, -, ⟨e, -, rfl⟩ | ⟨found, run₃, hfound, hrun₃, rfl⟩⟩ := solo_query hrun₂
  · cases hres
  have hfind : s.orders.find? (·.orderId = id) = found := by
    rw [← horders]
    exact (Prod.mk.inj (Except.ok.inj (Query.run_of_exec_ok hfound))).1
  rw [hfind]
  cases found with
  | none =>
    obtain rfl := Option.some.inj hrun₃
    cases hres
  | some order =>
    dsimp only at hrun₃
    split_ifs at hrun₃
    · obtain rfl := Option.some.inj hrun₃
      cases hres
    · obtain ⟨c', cs₃, -, ⟨e, -, rfl⟩ | ⟨authzs, run₄, -, hrun₄, rfl⟩⟩ := solo_query hrun₃
      · cases hres
      rcases solo_bind hrun₄ with ⟨e, -, herr⟩ | ⟨challenges, h₂, s₂, cs₄, run₅, -, hrun₅, rfl⟩
      · rw [herr] at hres
        cases hres
      obtain ⟨c'', cs₅, run₆, -, hrun₆, rfl⟩ := solo_perform hrun₅
      cases hcheck : checkFinalize env order authzs challenges (exec .now c'' s₂).1 parsedCsr with
      | error e =>
        rw [hcheck] at hrun₆
        obtain ⟨c₆, cs₆, run₇, -, hrun₇, rfl⟩ := solo_perform hrun₆
        obtain rfl := Option.some.inj hrun₇
        cases hres
      | ok _ =>
        rw [hcheck] at hrun₆
        obtain rfl := Option.some.inj hrun₆
        have hvalue := Except.ok.inj hres
        obtain ⟨-, -, rfl, -⟩ : _ ∧ _ ∧ _ ∧ _ := by simpa only [Prod.mk.injEq] using hvalue
        refine ⟨rfl, ?_⟩
        unfold checkFinalize at hcheck
        obtain ⟨_, hfinalizable, -⟩ := bind_eq_ok hcheck
        exact ((checkOrderFinalizable_eq_ok_iff _ _ _ _ _).mp hfinalizable).1

/-- The order is stored, so a write of its status takes effect unless the connection fails before
it. -/
theorem statusOf_updateOrderStatus {dbOrder : AcmeOrder} (status : String) (fault : Fault)
    (d : Drawn) (hfind : s.orders.find? (·.orderId = id) = some dbOrder) :
    let q : Query := .updateOrderStatus dbOrder.id status
    (fault = .before → ((q.exec fault d s).2 = s ∧ ∃ e, (q.exec fault d s).1 = .error e)) ∧
    (fault ≠ .before → ∃ order', (q.exec fault d s).2.orders.find? (·.orderId = id) = some order' ∧
      order'.id = dbOrder.id ∧ order'.status = status) ∧
    (fault = .after → ∃ e, (q.exec fault d s).1 = .error e) ∧
    (fault = .none → ∃ order', (q.exec fault d s).1 = .ok order') := by
  intro q
  have hmem : dbOrder ∈ s.orders := List.mem_of_find?_eq_some hfind
  obtain ⟨row, hrow⟩ : ∃ row, s.orders.find? (fun o => o.id = dbOrder.id) = some row :=
    Option.isSome_iff_exists.mp (List.find?_isSome.mpr ⟨dbOrder, hmem, by simp⟩)
  let write : AcmeOrder → AcmeOrder := fun o => { o with status, updatedAt := d.now }
  let orders := updateWhere (fun o => o.id = dbOrder.id) write s.orders
  have hrun : q.run d s = .ok (write row, { s with orders }) := by
    show (updateRow s.orders _ _ >>= fun p => _) = _
    unfold updateRow
    rw [hrow]
    rfl
  have hafter : orders.find? (·.orderId = id) = some (write dbOrder) := by
    show (s.orders.map _).find? _ = _
    rw [List.find?_map]
    have hcomp : ((fun o : AcmeOrder => decide (o.orderId = id)) ∘ fun o : AcmeOrder =>
        if decide (o.id = dbOrder.id) = true then write o else o) =
          fun o => decide (o.orderId = id) := by
      funext o
      by_cases ho : o.id = dbOrder.id
      · simp [ho, write]
      · simp [ho]
    rw [hcomp, hfind]
    simp
  unfold Query.exec
  rw [hrun]
  refine ⟨?_, ?_, ?_, ?_⟩
  · rintro rfl
    exact ⟨rfl, _, rfl⟩
  · intro hfault
    refine ⟨write dbOrder, ?_, rfl, rfl⟩
    cases fault with
    | none => exact hafter
    | before => exact absurd rfl hfault
    | after => exact hafter
  · rintro rfl
    exact ⟨_, rfl⟩
  · rintro rfl
    exact ⟨_, rfl⟩

/-- A reply of the CA with a certificate. -/
def NoCertificate (h : Trace) : Prop :=
  ∀ request certificateId, ⟨.issueCertificate request, .ok certificateId⟩ ∉ h

/-- One attempt to issue: a certificate, the last failure, or another attempt. -/
theorem solo_issueStep {request : IssueCertificateRequest} {left attempt : ℕ} {run : Run String}
    (hrun : (issueWithRetry request left attempt).solo exec cs s = some run) :
    (∃ certificateId cs', run = ⟨.ok certificateId,
      [⟨.issueCertificate request, .ok certificateId⟩], s, cs'⟩) ∨
    (∃ e status cs', run = ⟨.error e, [⟨.issueCertificate request, .error status⟩], s, cs'⟩) ∨
    ∃ status left' cs' rest, left = left' + 1 ∧
      (issueWithRetry request left' (attempt + 1)).solo exec cs' s = some rest ∧
      run = { rest with history :=
        ⟨.issueCertificate request, .error status⟩ :: rest.history } := by
  unfold issueWithRetry at hrun
  obtain ⟨c, cs', rest, -, hrest, rfl⟩ := solo_perform hrun
  show _ ∨ _ ∨ _
  change (∃ certificateId cs'', { rest with history := ⟨.issueCertificate request, c.issued⟩
    :: rest.history } = (_ : Run String)) ∨ _ ∨ _
  cases hissued : c.issued with
  | ok certificateId =>
    have hreply : (exec (.issueCertificate request) c s).1 = .ok certificateId := hissued
    rw [hreply] at hrest
    obtain rfl := Option.some.inj hrest
    exact .inl ⟨certificateId, cs', rfl⟩
  | error status =>
    have hreply : (exec (.issueCertificate request) c s).1 = .error status := hissued
    rw [hreply] at hrest
    dsimp only at hrest
    split_ifs at hrest
    · obtain rfl := Option.some.inj hrest
      exact .inr (.inl ⟨_, status, cs', by rw [← hissued]; rfl⟩)
    · cases left with
      | zero =>
        obtain rfl := Option.some.inj hrest
        exact .inr (.inl ⟨_, status, cs', by rw [← hissued]; rfl⟩)
      | succ left =>
        exact .inr (.inr ⟨status, left, cs', rest, rfl, hrest, by rw [← hissued]; rfl⟩)

theorem solo_issueWithRetry {request : IssueCertificateRequest} {left : ℕ} :
    ∀ {attempt : ℕ} {cs : List Choice} {run : Run String},
      (issueWithRetry request left attempt).solo exec cs s = some run →
      run.store = s ∧ ∀ certificateId, run.result = .ok certificateId →
        ⟨.issueCertificate request, .ok certificateId⟩ ∈ run.history := by
  induction left with
  | zero =>
    intro attempt cs run hrun
    rcases solo_issueStep hrun with ⟨id, cs', rfl⟩ | ⟨e, status, cs', rfl⟩ | ⟨_, _, _, _, hleft, -⟩
    · refine ⟨rfl, fun id' hid => ?_⟩
      obtain rfl := Except.ok.inj hid
      exact List.mem_singleton.mpr rfl
    · exact ⟨rfl, nofun⟩
    · cases hleft
  | succ left ih =>
    intro attempt cs run hrun
    rcases solo_issueStep hrun with ⟨id, cs', rfl⟩ | ⟨e, status, cs', rfl⟩ |
      ⟨status, left', cs', rest, hleft, hrest, rfl⟩
    · refine ⟨rfl, fun id' hid => ?_⟩
      obtain rfl := Except.ok.inj hid
      exact List.mem_singleton.mpr rfl
    · exact ⟨rfl, nofun⟩
    · obtain rfl := Nat.succ.inj hleft
      obtain ⟨hstore, hissued⟩ := ih hrest
      exact ⟨hstore, fun id hid => List.mem_cons_of_mem _ (hissued id hid)⟩

/-- Without a certificate the issuance leaves the database as it was. -/
theorem store_of_noCertificate {maxRetries : ℕ} {orderId : Uuid} {csrDer : List UInt8}
    {accountId : String} {f : Uuid → Handler α} {run : Run α}
    (hrun : (caFinalizeOrder env maxRetries orderId csrDer accountId >>= f).solo exec cs s =
      some run) (hnone : NoCertificate run.history) : run.store = s := by
  unfold caFinalizeOrder at hrun
  rw [bind_assoc] at hrun
  rcases solo_liftOutcome hrun with ⟨e, rfl⟩ | ⟨request, -, hrun₁⟩
  · rfl
  rw [bind_assoc] at hrun₁
  obtain ⟨c, cs₁, run₂, -, hrun₂, rfl⟩ := solo_perform hrun₁
  by_cases hallowed : (exec .isRequestAllowed c s).1 = true
  · rw [hallowed] at hrun₂
    rw [show (exec .isRequestAllowed c s).2 = s from rfl] at hrun₂
    simp only [Bool.not_true, Bool.false_eq_true, if_false, bind_assoc] at hrun₂
    rcases solo_bind hrun₂ with ⟨e, herr, -⟩ | ⟨issued, h₁, s₁, cs₂, run₃, hissue, -, rfl⟩
    · exact (solo_issueWithRetry herr).1
    · refine absurd ((solo_issueWithRetry hissue).2 issued rfl) fun hmem => ?_
      exact hnone request issued (List.mem_cons_of_mem _ (List.mem_append_left _ hmem))
  · rw [Bool.not_eq_true] at hallowed
    rw [hallowed] at hrun₂
    obtain rfl := Option.some.inj hrun₂
    rfl

end

/-- The request fails where the order keeps its status: the checks refuse it, the write of
`processing` does not reach the database, or no CA client is configured and the write of `ready`
reaches the database. -/
def Retryable (env : Env) (id : String) (body : List UInt8) (cs : List Choice) (s : Store) : Prop :=
  match (finalizeChecks env id body).solo exec cs s with
  | some ⟨.ok _, _, _, c :: cs'⟩ =>
    c.fault = .before ∨
      env.caClient = none ∧ c.fault = .none ∧ ∀ c', cs'.head? = some c' → c'.fault ≠ .before
  | _ => True

/-- **The order after a failed finalize request.**  A request that runs by itself and gets no
certificate (so that it fails) keeps the status of its order exactly if it is retryable. -/
theorem status_kept_iff (env : Env) (id : String) (body : List UInt8) (cs : List Choice)
    (s : Store) (run : Run Response)
    (hrun : (finalizeOrder env id body).solo exec cs s = some run)
    (hnone : NoCertificate run.history) :
    statusOf id run.store = statusOf id s ↔ Retryable env id body cs s := by
  rw [finalizeOrder_eq] at hrun
  rcases solo_bind hrun with ⟨e, hchecks, -⟩ | ⟨checked, h₁, s₁, cs₁, rest, hchecks, hrest, rfl⟩
  · -- the checks refused
    have horders := orders_of_within (quiet_finalizeChecks env id body) hchecks
    unfold Retryable statusOf
    rw [hchecks]
    exact iff_of_true (by rw [show run.store.orders = s.orders from horders]) trivial
  obtain ⟨accountId, csrDer, dbOrder, dbAuthzs⟩ := checked
  obtain ⟨horders, hfind, hready⟩ := order_of_checks hchecks
  have hbefore : statusOf id s = some "ready" := by
    unfold statusOf
    rw [hfind, Option.map_some, hready]
  rw [← horders] at hfind
  unfold finalizeRest at hrest
  obtain ⟨c, cs₂, rfl, hquery⟩ := solo_query hrest
  obtain ⟨hlost, hwritten, hafter, hok⟩ :=
    statusOf_updateOrderStatus "processing" c.fault c.drawn hfind
  set s₂ := ((Query.updateOrderStatus dbOrder.id "processing").exec c.fault c.drawn s₁).2
  unfold Retryable
  rw [hchecks, hbefore]
  dsimp only
  -- what the write of `processing` leaves, if nothing comes after it
  have hprocessing (hfault : c.fault ≠ .before) : statusOf id s₂ = some "processing" := by
    obtain ⟨order', hfind', -, hstatus⟩ := hwritten hfault
    unfold statusOf
    rw [hfind', Option.map_some, hstatus]
  have hstuck {s' : Store} (h : statusOf id s' = some "processing") :
      ¬statusOf id s' = some "ready" := by
    rw [h]
    decide
  rcases hquery with ⟨e, herr, rfl⟩ | ⟨order, rest', hreply, hrest', rfl⟩
  · cases hfault : c.fault with
    | none =>
      obtain ⟨order', hok'⟩ := hok hfault
      rw [herr] at hok'
      cases hok'
    | before =>
      refine iff_of_true ?_ (.inl rfl)
      show statusOf id s₂ = _
      rw [(hlost hfault).1, ← hbefore]
      unfold statusOf
      rw [horders]
    | after =>
      refine iff_of_false (hstuck (hprocessing (by rw [hfault]; decide))) ?_
      simp
  · have hfault : c.fault = .none := by
      cases hfault : c.fault with
      | none => rfl
      | before =>
        obtain ⟨-, e, herr⟩ := hlost hfault
        rw [hreply] at herr
        cases herr
      | after =>
        obtain ⟨e, herr⟩ := hafter hfault
        rw [hreply] at herr
        cases herr
    have hfault' : c.fault ≠ .before := by
      rw [hfault]
      decide
    cases hca : env.caClient with
    | none =>
      rw [hca] at hrest'
      obtain ⟨c', cs₃, rest'', rfl, hraise, rfl⟩ := solo_perform hrest'
      obtain rfl := Option.some.inj hraise
      obtain ⟨order', hfind', hid, -⟩ := hwritten hfault'
      have hback := statusOf_updateOrderStatus "ready" c'.fault c'.drawn hfind'
      rw [hid] at hback
      obtain ⟨hlost', hwritten', -⟩ := hback
      show statusOf id ((Query.updateOrderStatus dbOrder.id "ready").exec c'.fault c'.drawn s₂).2
        = _ ↔ _
      by_cases hback : c'.fault = .before
      · refine iff_of_false ?_ ?_
        · rw [(hlost' hback).1]
          exact hstuck (hprocessing hfault')
        · rintro (h | ⟨-, -, h⟩)
          · exact hfault' h
          · exact h c' rfl hback
      · refine iff_of_true ?_ (.inr ⟨rfl, hfault, fun c'' hc'' => ?_⟩)
        · obtain ⟨order'', hfind'', -, hstatus⟩ := hwritten' hback
          unfold statusOf
          rw [hfind'', Option.map_some, hstatus]
        · obtain rfl := Option.some.inj hc''
          exact hback
    | some maxRetries =>
      rw [hca] at hrest'
      have hstore := store_of_noCertificate hrest' fun request id' hmem =>
        hnone request id' (List.mem_append_right _ (List.mem_cons_of_mem _ hmem))
      refine iff_of_false ?_ ?_
      · show ¬statusOf id rest'.store = _
        rw [hstore]
        exact hstuck (hprocessing hfault')
      · simp [hfault]

/-! ### Runs -/

open Instance

/-- `NoCertificate` as a check. -/
def noCertificate (h : Trace) : Bool :=
  h.all fun
    | ⟨.issueCertificate _, .ok _⟩ => false
    | _ => true

theorem noCertificate_sound {h : Trace} (hcheck : noCertificate h = true) : NoCertificate h := by
  intro request certificateId hmem
  exact absurd (List.all_eq_true.mp hcheck _ hmem) (by simp)

/-- The CA refuses to issue. -/
def refused (n : ℕ) : Choice := { choice n with issued := .error ⟨.Other, "permission denied"⟩ }

/-- A finalize request after the order is `ready`: its status before and after, whether it failed
and whether there is a certificate. -/
def finalizeReady (env : Env) : Option (Option String × Option String × Bool × Bool) := do
  let cfg ← (acme (wire orderMessages)).run onlyRequests toReady (System.initial {})
  let s := cfg.world.store
  let id := "order-" ++ uuid 20
  let run ← (finalizeOrder env id [3]).solo exec ((List.range 20).map fun i => refused (70 + i)) s
  return (statusOf id s, statusOf id run.store, run.result.isOk, noCertificate run.history)

theorem run_of_finalizeReady {env : Env} {before after : Option String} {ok noCert : Bool}
    (h : finalizeReady env = some (before, after, ok, noCert)) :
    ∃ cfg run, (acme (wire orderMessages)).Reach OnlyRequests (System.initial {}) cfg ∧
      (finalizeOrder env ("order-" ++ uuid 20) [3]).solo exec
        ((List.range 20).map fun i => refused (70 + i)) cfg.world.store = some run ∧
      statusOf ("order-" ++ uuid 20) cfg.world.store = before ∧
      statusOf ("order-" ++ uuid 20) run.store = after ∧ run.result.isOk = ok ∧
      noCertificate run.history = noCert := by
  obtain ⟨cfg, hcfg, h⟩ := Option.bind_eq_some_iff.mp h
  obtain ⟨run, hrun, h⟩ := Option.bind_eq_some_iff.mp h
  obtain ⟨hbefore, hafter, hok, hcert⟩ : _ ∧ _ ∧ _ ∧ _ := by
    simpa only [Prod.mk.injEq] using Option.some.inj h
  exact ⟨cfg, run, System.reach_of_run onlyRequests_sound _ hcfg, hrun, hbefore, hafter, hok, hcert⟩

/-- Without a CA client the order goes back to `ready`. -/
theorem status_kept_without_ca :
    ∃ (cfg : AcmeConfig) (run : Run Response),
      (finalizeOrder { wire orderMessages with caClient := none } ("order-" ++ uuid 20)
        [3]).solo exec
        ((List.range 20).map fun i => refused (70 + i)) cfg.world.store = some run ∧
      run.result.isOk = false ∧
      statusOf ("order-" ++ uuid 20) run.store = statusOf ("order-" ++ uuid 20) cfg.world.store ∧
      Retryable { wire orderMessages with caClient := none } ("order-" ++ uuid 20) [3]
        ((List.range 20).map fun i => refused (70 + i)) cfg.world.store := by
  have hready : finalizeReady { wire orderMessages with caClient := none } =
      some (some "ready", some "ready", false, true) := by decide +kernel
  obtain ⟨cfg, run, -, hrun, hbefore, hafter, hok, hcert⟩ := run_of_finalizeReady hready
  have hsame := hafter.trans hbefore.symm
  exact ⟨cfg, run, hrun, hok, hsame,
    (status_kept_iff _ _ _ _ _ run hrun (noCertificate_sound hcert)).mp hsame⟩

/-- A refusal by the CA leaves the order in `processing`. -/
theorem stuck_in_processing :
    ∃ (cfg : AcmeConfig) (run : Run Response),
      (acme (wire orderMessages)).Reach OnlyRequests (System.initial {}) cfg ∧
      (finalizeOrder (wire orderMessages) ("order-" ++ uuid 20) [3]).solo exec
        ((List.range 20).map fun i => refused (70 + i)) cfg.world.store = some run ∧
      run.result.isOk = false ∧ NoCertificate run.history ∧
      statusOf ("order-" ++ uuid 20) cfg.world.store = some "ready" ∧
      statusOf ("order-" ++ uuid 20) run.store = some "processing" := by
  have hready : finalizeReady (wire orderMessages) =
      some (some "ready", some "processing", false, true) := by decide +kernel
  obtain ⟨cfg, run, hreach, hrun, hbefore, hafter, hok, hcert⟩ := run_of_finalizeReady hready
  exact ⟨cfg, run, hreach, hrun, hok, noCertificate_sound hcert, hbefore, hafter⟩

end Ostrich.Acme
