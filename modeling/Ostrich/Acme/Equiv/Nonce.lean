import Ostrich.Acme.Equiv.Rest
import Ostrich.Acme.Instance

/-!
# Anti-replay nonces (`ostrich-acme/src/rest.rs`, `ostrich-db/src/repository/acme.rs`)

A signed request is accepted only after its nonce was taken out of the table.

* `nonces_balance`: in every run a nonce is taken out at most as often as it was put in;
* `nonce_accepted_once`: of all requests with a nonce that is there once, at most one is accepted.
-/

namespace Ostrich.Acme

open Interleave Table

/-! ### What a signed request does -/

/-- The body of a signed request, and the URL that it has to name. -/
def Task.signed (env : Env) : Task → Option (List UInt8 × String)
  | .newAccount body => some (body, env.baseUrl ++ "/acme/new-account")
  | .updateAccount id body => some (body, accountUrl env id)
  | .newOrder body => some (body, env.baseUrl ++ "/acme/new-order")
  | .postAsGetOrder id body => some (body, env.baseUrl ++ "/acme/order/" ++ id)
  | .postAsGetAuthorization id body => some (body, authzUrl env id)
  | .respondToChallenge id body => some (body, env.baseUrl ++ "/acme/challenge/" ++ id)
  | .finalizeOrder id body => some (body, env.baseUrl ++ "/acme/order/" ++ id ++ "/finalize")
  | .getNewNonce _ | .getOrder _ | .getAuthorization _ | .validation _ => none

/-- The nonce in the header of a signed request. -/
def Task.nonce (env : Env) (t : Task) : Option String :=
  (t.signed env).bind fun request => (openJws env request.1 request.2).toOption.map (·.2.nonce)

/-- The request was opened, and its nonce was taken. -/
def Consumed (env : Env) (body : List UInt8) (url : String) (h : Trace) : Prop :=
  ∃ envelope header, openJws env body url = .ok (envelope, header) ∧
    Replied h (.consumeNonce header.nonce) true

section

variable {env : Env} {body : List UInt8} {url : String} {h : Trace} {α β : Type}

/-- What a part took, the handler has taken. -/
theorem consumed_bind {p : Handler α} {f : α → Handler β}
    (hp : p.Does (fun _ _ => True) (fun _ h' => Consumed env body url h') h) :
    (p >>= f).Does (fun _ _ => True) (fun _ h' => Consumed env body url h') h := by
  rw [Prog.does_bind]
  refine hp.mono fun a h' hconsumed => ?_
  obtain ⟨envelope, header, hopen, hmem⟩ := hconsumed
  have hwithin : (f a).Within fun _ => True := Prog.within_of_forall (fun _ => trivial) _
  exact hwithin.wp (fun _ _ _ => trivial) fun _ _ _ _ _ =>
    ⟨envelope, header, hopen, List.mem_append_left _ hmem⟩

theorem consumed_consumeNonce {envelope : JwsEnvelope} {header : ProtectedHeader}
    (hopen : openJws env body url = .ok (envelope, header)) :
    (consumeNonce header.nonce).Does (fun _ _ => True)
      (fun _ h' => Consumed env body url h') h := by
  refine ⟨trivial, fun r => ?_⟩
  cases r with
  | error e => exact fun _ hr => by cases hr
  | ok taken =>
    cases taken with
    | false => exact fun _ hr => by cases hr
    | true =>
      intro _ _
      exact ⟨envelope, header, hopen, List.mem_append_right _ (List.mem_singleton_self _)⟩

theorem consumed_verifyJwsAccount :
    (verifyJwsAccount env body url).Does (fun _ _ => True)
      (fun _ h' => Consumed env body url h') h := by
  refine wp_liftResult_bind.mpr ⟨fun opened hopen => ?_, fun _ _ _ hr => by cases hr⟩
  exact consumed_bind (consumed_consumeNonce hopen)

theorem consumed_validateJwsWithAccount (fromJson : FromJson α) :
    (validateJwsWithAccount env fromJson body url).Does (fun _ _ => True)
      (fun _ h' => Consumed env body url h') h :=
  consumed_bind consumed_verifyJwsAccount

theorem consumed_validateJwsNewAccount (fromJson : FromJson α) :
    (validateJwsNewAccount env fromJson body url).Does (fun _ _ => True)
      (fun _ h' => Consumed env body url h') h := by
  refine wp_liftResult_bind.mpr ⟨fun opened hopen => ?_, fun _ _ _ hr => by cases hr⟩
  exact consumed_bind (consumed_consumeNonce hopen)

end

/-- What is known of a request that was accepted. -/
def nonceSpec (env : Env) : Spec Call Reply Failure (Option Response) Task where
  calls _ _ _ := True
  result t r h := ∀ a, r = .ok a → ∀ request, t.signed env = some request →
    Consumed env request.1 request.2 h

/-- **Every signed request takes its nonce before it is accepted.** -/
theorem nonceSpec_meets (env : Env) : (acme env).Meets (nonceSpec env) := by
  -- a request without a signature has nothing to show
  have hplain {t : Task} (ht : t.signed env = none) :
      ((acme env).body t).Wp (fun _ _ => True) ((nonceSpec env).result t) [] := by
    have hwithin : ((acme env).body t).Within fun _ => True :=
      Prog.within_of_forall (fun _ => trivial) _
    refine hwithin.wp (fun _ _ _ => trivial) fun _ _ _ _ _ request hrequest => ?_
    rw [ht] at hrequest
    cases hrequest
  have hsigned {t : Task} {p : Handler Response} {body : List UInt8} {url : String}
      (hbody : (acme env).body t = some <$> p) (ht : t.signed env = some (body, url))
      (hp : p.Does (fun _ _ => True) (fun _ h' => Consumed env body url h') []) :
      ((acme env).body t).Wp (fun _ _ => True) ((nonceSpec env).result t) [] := by
    rw [hbody, Prog.wp_map]
    refine Prog.Wp.mono hp fun r h hr a ha request hrequest => ?_
    rw [ht] at hrequest
    obtain rfl := Option.some.inj hrequest
    cases r with
    | ok b => exact hr b rfl
    | error e => cases ha
  intro t
  cases t with
  | getNewNonce => exact hplain rfl
  | getOrder => exact hplain rfl
  | getAuthorization => exact hplain rfl
  | validation => exact hplain rfl
  | newAccount => exact hsigned rfl rfl (consumed_bind (consumed_validateJwsNewAccount _))
  | updateAccount => exact hsigned rfl rfl (consumed_bind (consumed_validateJwsWithAccount _))
  | newOrder => exact hsigned rfl rfl (consumed_bind (consumed_validateJwsWithAccount _))
  | postAsGetOrder => exact hsigned rfl rfl (consumed_bind consumed_verifyJwsAccount)
  | postAsGetAuthorization => exact hsigned rfl rfl (consumed_bind consumed_verifyJwsAccount)
  | respondToChallenge => exact hsigned rfl rfl (consumed_bind (consumed_validateJwsWithAccount _))
  | finalizeOrder => exact hsigned rfl rfl (consumed_bind (consumed_validateJwsWithAccount _))

/-! ### The nonces in the table -/

/-- The event is a request to put the nonce into the table. -/
def creates (nonce : String) : AcmeEvent → Bool
  | .call _ (.db (.createNonce n _)) _ => n = nonce
  | _ => false

/-- The event takes the nonce out of the table. -/
def consumes (nonce : String) : AcmeEvent → Bool
  | .call _ (.db (.consumeNonce n)) (.ok true) => n = nonce
  | _ => false

/-- How often the nonce is in the table. -/
def Store.present (s : Store) (nonce : String) : ℕ := s.nonces.countP fun n => n.nonce = nonce

/-- Other statements leave the nonces. -/
theorem Query.run_nonces {q : Query} {d : Drawn} {s s' : Store} {a : q.Result}
    (h : q.run d s = .ok (a, s')) (hcreate : ∀ n e, q ≠ .createNonce n e)
    (hconsume : ∀ n, q ≠ .consumeNonce n) : s'.nonces = s.nonces := by
  cases q with
  | createNonce n e => exact absurd rfl (hcreate n e)
  | consumeNonce n => exact absurd rfl (hconsume n)
  | createAccount =>
    obtain ⟨⟨row, rows⟩, -, h⟩ := bind_eq_ok h
    obtain ⟨-, rfl⟩ := Prod.mk.inj (Except.ok.inj h)
    rfl
  | createOrder | createAuthorization | createChallenge | updateOrderCertificate =>
    rw [Query.run] at h
    split_ifs at h
    obtain ⟨⟨row, rows⟩, -, h⟩ := bind_eq_ok h
    obtain ⟨-, rfl⟩ := Prod.mk.inj (Except.ok.inj h)
    rfl
  | updateAccount | updateOrderStatus | updateAuthorizationStatus | updateChallengeStatus =>
    obtain ⟨⟨row, rows⟩, -, h⟩ := bind_eq_ok h
    obtain ⟨-, rfl⟩ := Prod.mk.inj (Except.ok.inj h)
    rfl
  | _ =>
    obtain ⟨-, rfl⟩ := Prod.mk.inj (Except.ok.inj h)
    rfl

theorem countP_filter_lt {α : Type} {p q : α → Bool} (hpq : ∀ a, q a = true → p a = true) :
    ∀ {l : List α}, l.any q = true → (l.filter fun a => !q a).countP p < l.countP p := by
  intro l
  induction l with
  | nil => exact fun h => by cases h
  | cons a l ih =>
    intro h
    have hle : (l.filter fun a => !q a).countP p ≤ l.countP p :=
      List.filter_sublist.countP_le
    rw [List.filter_cons, List.countP_cons]
    cases hq : q a with
    | true =>
      rw [Bool.not_true, if_neg Bool.false_ne_true, hpq a hq, if_pos rfl]
      omega
    | false =>
      rw [List.any_cons, hq, Bool.false_or] at h
      have hlt := ih h
      rw [Bool.not_false, if_pos rfl, List.countP_cons]
      omega

theorem consumed_of_consumes {nonce n : String} {i : ℕ} {r : Except DbError Bool}
    (h : consumes nonce (.call i (.db (.consumeNonce n)) r) = true) :
    r = .ok true ∧ n = nonce := by
  cases r with
  | error e => cases h
  | ok taken =>
    cases taken with
    | false => cases h
    | true => exact ⟨rfl, of_decide_eq_true h⟩

/-- At most one row comes with a statement that puts a nonce in. -/
theorem present_createNonce (nonce n : String) (expires : DateTime) (c : Choice) (s : Store) :
    ((Query.createNonce n expires).exec c.fault c.drawn s).2.present nonce ≤
      s.present nonce + (decide (n = nonce)).toNat := by
  rcases Query.exec_store (.createNonce n expires) c.fault c.drawn s with heq | ⟨a, hrun⟩
  · rw [heq]
    exact Nat.le_add_right _ _
  · obtain ⟨⟨row, rows⟩, hins, hstore⟩ := bind_eq_ok hrun
    obtain ⟨-, hrows, -⟩ := insertRow_eq_ok hins
    obtain ⟨-, hstore⟩ := Prod.mk.inj (Except.ok.inj hstore)
    unfold Store.present
    rw [← hstore]
    show rows.countP _ ≤ _
    rw [hrows, List.countP_append, List.countP_singleton]
    by_cases hn : n = nonce
    · simp [hn]
    · simp [hn]

/-- A nonce that is taken out is there once less. -/
theorem present_consumeNonce (nonce n : String) (i : ℕ) (c : Choice) (s : Store) :
    (consumes nonce (.call i (.db (.consumeNonce n)) (exec (.db (.consumeNonce n)) c s).1)).toNat +
      ((Query.consumeNonce n).exec c.fault c.drawn s).2.present nonce ≤ s.present nonce := by
  cases htaken : consumes nonce
      (.call i (.db (.consumeNonce n)) (exec (.db (.consumeNonce n)) c s).1) with
  | false =>
    show 0 + _ ≤ _
    rw [Nat.zero_add]
    rcases Query.exec_store (.consumeNonce n) c.fault c.drawn s with heq | ⟨a, hrun⟩
    · rw [heq]
    · obtain ⟨-, hstore⟩ := Prod.mk.inj (Except.ok.inj hrun)
      rw [← hstore]
      exact List.filter_sublist.countP_le
  | true =>
    obtain ⟨hreply, rfl⟩ := consumed_of_consumes htaken
    obtain ⟨hany, hstore⟩ := Prod.mk.inj (Except.ok.inj (Query.run_of_exec_ok hreply))
    rw [← hstore]
    have hlt := countP_filter_lt (p := fun row : AcmeNonce => decide (row.nonce = n))
      (fun row hrow => (Bool.and_eq_true_iff.mp hrow).1) hany
    unfold Store.present
    show 1 + (s.nonces.filter _).countP _ ≤ s.nonces.countP _
    omega

/-- **One call**: what it takes was there, or it has put it there. -/
theorem present_exec (nonce : String) (i : ℕ) (e : Call) (c : Choice) (s : Store) :
    (consumes nonce (.call i e (exec e c s).1)).toNat + (exec e c s).2.present nonce ≤
      s.present nonce + (creates nonce (.call i e (exec e c s).1)).toNat := by
  cases e with
  | newUuid | now | recordAudit | validate | isRequestAllowed | issueCertificate
  | spawnValidation => exact (Nat.zero_add _).le
  | db q =>
    by_cases hcreate : ∃ n expires, q = .createNonce n expires
    · obtain ⟨n, expires, rfl⟩ := hcreate
      exact (Nat.zero_add _).le.trans (present_createNonce nonce n expires c s)
    · by_cases hconsume : ∃ n, q = .consumeNonce n
      · obtain ⟨n, rfl⟩ := hconsume
        exact (present_consumeNonce nonce n i c s).trans (Nat.le_add_right _ _)
      · -- the other statements neither take nor put
        have hnonces : (exec (.db q) c s).2.nonces = s.nonces := by
          rcases q.exec_store c.fault c.drawn s with heq | ⟨a, hrun⟩
          · exact congrArg Store.nonces heq
          · exact Query.run_nonces hrun (fun n e hq => hcreate ⟨n, e, hq⟩)
              fun n hq => hconsume ⟨n, hq⟩
        have hno : consumes nonce (.call i (.db q) (exec (.db q) c s).1) = false := by
          cases q with
          | consumeNonce n => exact absurd ⟨n, rfl⟩ hconsume
          | _ => rfl
        have hsame : (exec (.db q) c s).2.present nonce = s.present nonce := by
          unfold Store.present
          rw [hnonces]
        rw [hno, hsame]
        exact (Nat.zero_add _).le.trans (Nat.le_add_right _ _)

/-- Only calls are counted. -/
theorem counts_calls (nonce : String) {ev : AcmeEvent} (hev : ∀ i e r, ev ≠ .call i e r) :
    consumes nonce ev = false ∧ creates nonce ev = false := by
  cases ev with
  | call i e r => exact absurd rfl (hev i e r)
  | _ => exact ⟨rfl, rfl⟩

/-- Of a call and the task that it spawns, the call is counted. -/
theorem countP_call {env : Env} {p : AcmeEvent → Bool}
    (hp : ∀ ev : AcmeEvent, (∀ i e r, ev ≠ .call i e r) → p ev = false) (log : List AcmeEvent)
    (ev : AcmeEvent) (i n : ℕ) (e : Call) :
    (log ++ ev :: (acme env).spawnEvents i n e).countP p = log.countP p + (p ev).toNat := by
  have hzero : ((acme env).spawnEvents i n e).countP p = 0 := by
    refine List.countP_eq_zero.mpr fun ev hev => ?_
    unfold System.spawnEvents at hev
    split at hev
    · cases hev
    · rw [List.mem_singleton.mp hev, hp _ fun _ _ _ h => by cases h]
      exact Bool.false_ne_true
  rw [List.countP_append, List.countP_cons, hzero]
  cases p ev <;> rfl

/-- The takings of a nonce and what is left of it are at most what was there and what was put
there. -/
def Balanced (store : Store) (nonce : String) (w : AcmeWorld) : Prop :=
  w.log.countP (consumes nonce) + w.store.present nonce ≤
    store.present nonce + w.log.countP (creates nonce)

/-- **In every run a nonce is taken out at most as often as it was put in.** -/
theorem nonces_balance {env : Env} {allowed : AcmeWorld → AcmeEvent → Prop} {store : Store}
    {cfg : AcmeConfig} (hreach : (acme env).Reach allowed (System.initial store) cfg)
    (nonce : String) : Balanced store nonce cfg.world := by
  have hinit : Balanced store nonce (System.initial store : AcmeConfig).world :=
    (Nat.zero_add _).le
  have hJ : (acme env).Preserves (nonceSpec env) allowed (fun _ => True)
      (Balanced store nonce) := by
    refine .of_call (fun w ev hev h => ?_) fun {w i n t e c} _ _ h _ _ _ => ?_
    · obtain ⟨hconsumes, hcreates⟩ := counts_calls nonce hev
      show (w.log ++ [ev]).countP _ + _ ≤ _ + (w.log ++ [ev]).countP _
      rw [List.countP_append, List.countP_append, List.countP_singleton, List.countP_singleton,
        hconsumes, hcreates]
      exact h
    · show (w.log ++ _ :: (acme env).spawnEvents i n e).countP _ + _ ≤
        _ + (w.log ++ _ :: (acme env).spawnEvents i n e).countP _
      rw [countP_call fun ev hev => (counts_calls nonce hev).1,
        countP_call fun ev hev => (counts_calls nonce hev).2]
      have hone : (consumes nonce (.call i e ((acme env).exec e c w.store).1)).toNat +
          ((acme env).exec e c w.store).2.present nonce ≤ w.store.present nonce +
          (creates nonce (.call i e ((acme env).exec e c w.store).1)).toNat :=
        present_exec nonce i e c w.store
      have h : w.log.countP (consumes nonce) + w.store.present nonce ≤
        store.present nonce + w.log.countP (creates nonce) := h
      show _ + ((acme env).exec e c w.store).2.present nonce ≤ _
      omega
  exact (hJ.reach (nonceSpec_meets env) hinit hreach).2

/-! ### Requests with one nonce -/

theorem two_le_countP {α : Type} {p : α → Bool} {l : List α} {a b : α} (ha : a ∈ l) (hb : b ∈ l)
    (hne : a ≠ b) (hpa : p a = true) (hpb : p b = true) : 2 ≤ l.countP p := by
  obtain ⟨before, after, rfl⟩ := List.append_of_mem ha
  have hrest : 1 ≤ (before ++ after).countP p := by
    refine List.countP_pos_iff.mpr ⟨b, ?_, hpb⟩
    rcases List.mem_append.mp hb with hmem | hmem
    · exact List.mem_append_left _ hmem
    · exact List.mem_append_right _ ((List.mem_cons.mp hmem).resolve_left hne.symm)
  rw [List.countP_append] at hrest
  rw [List.countP_append, List.countP_cons, if_pos hpa]
  omega

/-- **Of all requests with a nonce that is there once, at most one is accepted.** -/
theorem nonce_accepted_once {env : Env} {allowed : AcmeWorld → AcmeEvent → Prop} {store : Store}
    {cfg : AcmeConfig} (hreach : (acme env).Reach allowed (System.initial store) cfg)
    {nonce : String}
    (honce : store.present nonce + cfg.world.log.countP (creates nonce) ≤ 1) {i j : ℕ}
    {t t' : Task} {response : Option Response} (hne : i ≠ j)
    (hstarted : cfg.world.Started i t) (hstarted' : cfg.world.Started j t')
    (hnonce : t.nonce env = some nonce) (hnonce' : t'.nonce env = some nonce)
    (hfinish : .finish i (.ok response) ∈ cfg.world.log) (response' : Option Response) :
    .finish j (.ok response') ∉ cfg.world.log := by
  have hwf := hreach.wf (nonceSpec_meets env)
  -- each of the two took the nonce
  have htook {i : ℕ} {t : Task} {response : Option Response} (hstarted : cfg.world.Started i t)
      (hnonce : t.nonce env = some nonce)
      (hfinish : .finish i (.ok response) ∈ cfg.world.log) :
      .call i (.db (.consumeNonce nonce)) (.ok true) ∈ cfg.world.log := by
    obtain ⟨t₁, hstarted₁, hresult⟩ := hreach.finished (nonceSpec_meets env) hfinish
    obtain rfl := hwf.started_unique hstarted hstarted₁
    obtain ⟨request, hrequest, hheader⟩ := Option.bind_eq_some_iff.mp hnonce
    obtain ⟨envelope, header, hopen, hmem⟩ := hresult response rfl request hrequest
    rw [hopen] at hheader
    obtain rfl := Option.some.inj hheader
    exact World.mem_history.mp hmem
  intro hfinish'
  have htwo : 2 ≤ cfg.world.log.countP (consumes nonce) := by
    refine two_le_countP (htook hstarted hnonce hfinish) (htook hstarted' hnonce' hfinish') ?_
      (decide_eq_true rfl) (decide_eq_true rfl)
    intro heq
    injection heq with hi
    exact hne hi
  have hbalance : cfg.world.log.countP (consumes nonce) + cfg.world.store.present nonce ≤
    store.present nonce + cfg.world.log.countP (creates nonce) := nonces_balance hreach nonce
  omega

/-! ### An instance -/

namespace Instance

/-- A request for an account. -/
def accountMessage : Message :=
  { url := "new-account", nonce := 1, jwk, newAccount := some { termsOfServiceAgreed := true } }

/-- The request, sent twice with the nonce of task 0. -/
def replay : List (Action Task Choice) :=
  .arrive (.getNewNonce false) :: steps 0 1 4 ++ .arrive (.newAccount [0]) :: steps 1 8 8 ++
    .arrive (.newAccount [0]) :: steps 2 30 2

/-- The event starts the request, as a check. -/
def startsAccount (i : ℕ) : AcmeEvent → Bool
  | .start j (.newAccount body) _ => j = i && body = [0]
  | _ => false

theorem started_of_startsAccount {w : AcmeWorld} {i : ℕ}
    (h : w.log.any (startsAccount i) = true) : w.Started i (.newAccount [0]) := by
  obtain ⟨ev, hmem, hev⟩ := List.any_eq_true.mp h
  unfold startsAccount at hev
  split at hev
  · rename_i parent
    simp only [Bool.and_eq_true, decide_eq_true_eq] at hev
    obtain ⟨rfl, rfl⟩ := hev
    exact ⟨parent, hmem⟩
  · cases hev

/-- The event ends a task with a response, as a check. -/
def accepts (i : ℕ) : AcmeEvent → Bool
  | .finish j (.ok _) => j = i
  | _ => false

theorem finished_of_accepts {w : AcmeWorld} {i : ℕ} (h : w.log.any (accepts i) = true) :
    ∃ response, .finish i (.ok response) ∈ w.log := by
  obtain ⟨ev, hmem, hev⟩ := List.any_eq_true.mp h
  unfold accepts at hev
  split at hev
  · rename_i response
    obtain rfl := of_decide_eq_true hev
    exact ⟨response, hmem⟩
  · cases hev

theorem check_replay : ((acme (wire [accountMessage])).run (fun _ _ => true) replay
    (System.initial {})).map (fun cfg => cfg.world.log.countP (creates (uuid 1)) = 1 &&
      cfg.world.log.any (startsAccount 1) && cfg.world.log.any (startsAccount 2) &&
      cfg.world.log.any (accepts 1)) = some true := by
  decide +kernel

end Instance

open Instance in
/-- The replayed request is not accepted. -/
theorem replay_refused : ∃ cfg : AcmeConfig,
    (∃ response, .finish 1 (.ok response) ∈ cfg.world.log) ∧
      cfg.world.Started 2 (.newAccount [0]) ∧
      ∀ response, .finish 2 (.ok response) ∉ cfg.world.log := by
  obtain ⟨cfg, hcfg, hvalue⟩ := Option.map_eq_some_iff.mp check_replay
  simp only [Bool.and_eq_true, decide_eq_true_eq] at hvalue
  obtain ⟨⟨⟨hcreated, hfirst⟩, hsecond⟩, haccepted⟩ := hvalue
  obtain ⟨response, hfinish⟩ := finished_of_accepts haccepted
  have hreach : (acme (wire [accountMessage])).Reach (fun _ _ => True) (System.initial {}) cfg :=
    System.reach_of_run (fun _ _ _ => trivial) _ hcfg
  refine ⟨cfg, ⟨response, hfinish⟩, started_of_startsAccount hsecond, ?_⟩
  exact nonce_accepted_once hreach (by rw [hcreated]; decide) (by decide)
    (started_of_startsAccount hfirst) (started_of_startsAccount hsecond) (by decide +kernel)
    (by decide +kernel) hfinish

end Ostrich.Acme
