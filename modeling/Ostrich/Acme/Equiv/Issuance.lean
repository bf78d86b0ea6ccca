import Ostrich.Acme.Equiv.CaIntegration
import Ostrich.Acme.Equiv.Rest
import Ostrich.Acme.Instance

/-!
# Certificates per order

Two finalize requests may both find the order `ready` before either sets it to `processing`, and a
validation task sets an order to `ready` whatever its status is; each way gives a second
certificate (`twice_issued`).  `issuances_le_one`: in a run in which a finalize request writes
`processing` only over `ready` and a validation task writes `ready` only over `pending` or `ready`,
the CA issues at most one certificate for an order.
-/

namespace Ostrich.Acme

open Interleave Table

/-! ### Counting issuances -/

/-- The CA service issued a certificate for the order. -/
def isIssuance (orderId : Uuid) : AcmeEvent → Bool
  | .call _ (.issueCertificate request) (.ok _) => request.requestId = orderId.toString
  | _ => false

/-- How many certificates the CA service has issued for the order. -/
def issuances (orderId : Uuid) (w : AcmeWorld) : ℕ := w.log.countP (isIssuance orderId)

theorem isIssuance_eq_true {orderId : Uuid} {ev : AcmeEvent} (h : isIssuance orderId ev = true) :
    ∃ i request certificateId, ev = .call i (.issueCertificate request) (.ok certificateId) ∧
      request.requestId = orderId.toString := by
  unfold isIssuance at h
  split at h
  · exact ⟨_, _, _, rfl, by simpa using h⟩
  · cases h

/-! ### Guarded writes -/

/-- The order has one of these statuses. -/
def OrderStatusIn (s : Store) (orderId : Uuid) (statuses : List String) : Prop :=
  ∃ row ∈ s.orders, row.id = orderId ∧ row.status ∈ statuses

/-- The writes of an order's status are made over the status that they belong to: `processing`
over `ready`, and `ready` by a validation task over `pending` or `ready`. -/
structure GuardedOrderWrites (w : AcmeWorld) (ev : AcmeEvent) : Prop where
  processing : ∀ i orderId r, ev = .call i (.db (.updateOrderStatus orderId "processing")) r →
    OrderStatusIn w.store orderId ["ready"]
  ready : ∀ i challenge orderId r, w.Started i (.validation challenge) →
    ev = .call i (.db (.updateOrderStatus orderId "ready")) r →
    OrderStatusIn w.store orderId ["pending", "ready"]

/-! ### The invariant -/

/-- Task `i` has set the order to `processing`, and the database has confirmed it. -/
def SetProcessing (w : AcmeWorld) (i : ℕ) (orderId : Uuid) : Prop :=
  ∃ row, .call i (.db (.updateOrderStatus orderId "processing")) (.ok row) ∈ w.log

theorem processing_history {w : AcmeWorld} {i : ℕ} {orderId : Uuid} :
    Processing (w.history i) orderId ↔ SetProcessing w i orderId :=
  exists_congr fun _ => World.mem_history

/-- An order that was set to `processing` stays `processing` or `valid`. -/
def StaysProcessing (w : AcmeWorld) : Prop :=
  ∀ i orderId, SetProcessing w i orderId → (∃ row ∈ w.store.orders, row.id = orderId) ∧
    ∀ row ∈ w.store.orders, row.id = orderId → row.status = "processing" ∨ row.status = "valid"

/-- What the store and the log say about issuances. -/
structure IssuanceInv (w : AcmeWorld) : Prop where
  stays : StaysProcessing w
  /-- One task at most has set an order to `processing`. -/
  unique : ∀ i j orderId, SetProcessing w i orderId → SetProcessing w j orderId → i = j
  /-- A certificate is issued to the task that set its order to `processing`. -/
  issued : ∀ i request certificateId,
    .call i (.issueCertificate request) (.ok certificateId) ∈ w.log →
    ∃ orderId, request.requestId = orderId.toString ∧ SetProcessing w i orderId
  le_one : ∀ orderId, issuances orderId w ≤ 1

/-- A successful write of a status reaches every row of the order, and there is one. -/
theorem orders_of_updateOrderStatus {c : Choice} {s : Store} {orderId : Uuid} {status : String}
    {a : AcmeOrder} (h : (exec (.db (.updateOrderStatus orderId status)) c s).1 = .ok a) :
    (∃ row ∈ (exec (.db (.updateOrderStatus orderId status)) c s).2.orders, row.id = orderId) ∧
      ∀ row ∈ (exec (.db (.updateOrderStatus orderId status)) c s).2.orders, row.id = orderId →
        row.status = status := by
  have hrun := Query.run_of_exec_ok h
  obtain ⟨⟨row, rows⟩, hupd, hrun⟩ := bind_eq_ok hrun
  obtain ⟨rfl, old, hold, hid, -⟩ := updateRow_eq_ok hupd
  obtain ⟨-, hs⟩ := Prod.mk.inj (Except.ok.inj hrun)
  rw [exec, ← hs]
  refine ⟨⟨_, mem_updateWhere.mpr ⟨old, hold, rfl⟩, ?_⟩, fun row' hrow' hid' => ?_⟩
  · rw [if_pos hid]
    simpa using hid
  · obtain ⟨old', -, rfl⟩ := mem_updateWhere.mp hrow'
    split_ifs at hid' ⊢ with hp
    · rfl
    · exact absurd (by simpa using hid') (by simpa using hp)

section

variable {env : Env} {w : AcmeWorld} {i n : ℕ} {t : Task} {e : Call} {c : Choice}

/-- If no validation task sets it to `ready`, an order that was set to `processing` stays
`processing` or `valid`. -/
theorem status_of_call (hca : env.caClient ≠ none) (hcalls : callSpec env t (w.history i) e)
    {orderId : Uuid}
    (hready : ∀ challenge, t = .validation challenge → e ≠ .db (.updateOrderStatus orderId "ready"))
    (hex : ∃ row ∈ w.store.orders, row.id = orderId)
    (hall : ∀ row ∈ w.store.orders, row.id = orderId →
      row.status = "processing" ∨ row.status = "valid") :
    (∃ row ∈ (exec e c w.store).2.orders, row.id = orderId) ∧
      ∀ row ∈ (exec e c w.store).2.orders, row.id = orderId →
        row.status = "processing" ∨ row.status = "valid" := by
  obtain ⟨old, hold, hid⟩ := hex
  have hchange := exec_orders e c w.store
  generalize (exec e c w.store).2.orders = rows at hchange ⊢
  cases hchange with
  | same => exact ⟨⟨old, hold, hid⟩, hall⟩
  | insert new _ hnew _ =>
    refine ⟨⟨old, List.mem_append_left _ hold, hid⟩, fun row hrow hrid => ?_⟩
    rcases List.mem_append.mp hrow with hrow | hrow
    · exact hall row hrow hrid
    · rw [List.mem_singleton.mp hrow] at hrid
      exact absurd (hid.trans hrid.symm) (hnew old hold)
  | update p f hupdated =>
    obtain ⟨orderId', rfl, ⟨status, rfl, rfl⟩ | ⟨certificateId, csrDer, rfl, rfl⟩⟩ := hupdated
    · refine ⟨⟨_, mem_updateWhere.mpr ⟨old, hold, rfl⟩, by split_ifs <;> exact hid⟩, ?_⟩
      intro row hrow hrid
      obtain ⟨old', hold', rfl⟩ := mem_updateWhere.mp hrow
      split_ifs at hrid ⊢ with hp
      · have horder : orderId' = orderId := (of_decide_eq_true hp).symm.trans hrid
        rw [horder] at hcalls hready
        rcases hcalls with ⟨_, _, _, _, _, -, -, -, hwrites⟩ | ⟨challenge, _, _, ht, rfl, -⟩
        · rcases hwrites with rfl | ⟨-, hnone⟩ | ⟨rfl, -⟩
          · exact .inl rfl
          · exact absurd hnone hca
          · exact .inr rfl
        · exact absurd rfl (hready challenge ht)
      · exact hall old' hold' hrid
    · refine ⟨⟨_, mem_updateWhere.mpr ⟨old, hold, rfl⟩, by split_ifs <;> exact hid⟩, ?_⟩
      intro row hrow hrid
      obtain ⟨old', hold', rfl⟩ := mem_updateWhere.mp hrow
      split_ifs at hrid ⊢ <;> exact hall old' hold' hrid

theorem setProcessing_after {j : ℕ} {orderId : Uuid}
    (h : SetProcessing ((acme env).after i n e c w) j orderId) :
    SetProcessing w j orderId ∨ j = i ∧ e = .db (.updateOrderStatus orderId "processing") ∧
      ∃ row, (exec (.db (.updateOrderStatus orderId "processing")) c w.store).1 = .ok row := by
  obtain ⟨row, hrow⟩ := h
  rcases (System.call_mem_after _).mp hrow with hold | hnew
  · exact .inl ⟨row, hold⟩
  · obtain ⟨rfl, rfl, hreply⟩ := Event.call.inj hnew
    exact .inr ⟨rfl, rfl, row, (eq_of_heq hreply).symm⟩

theorem SetProcessing.after {j : ℕ} {orderId : Uuid} (h : SetProcessing w j orderId) :
    SetProcessing ((acme env).after i n e c w) j orderId :=
  h.imp fun _ hrow => System.mem_after_of_mem _ hrow

/-- Events that are no calls keep the invariant. -/
theorem IssuanceInv.add (hinv : IssuanceInv w) {evs : List AcmeEvent}
    (hevs : ∀ j e r, .call j e r ∉ evs) : IssuanceInv (w.add evs) := by
  have hold {j : ℕ} {e : Call} {r : Reply e} (h : .call j e r ∈ w.log ++ evs) :
      .call j e r ∈ w.log := by
    rcases List.mem_append.mp h with h | h
    · exact h
    · exact absurd h (hevs j e r)
  have hset {j : ℕ} {orderId : Uuid} (h : SetProcessing (w.add evs) j orderId) :
      SetProcessing w j orderId := h.imp fun _ hrow => hold hrow
  refine ⟨fun j orderId h => hinv.stays j orderId (hset h),
    fun j k orderId hj hk => hinv.unique j k orderId (hset hj) (hset hk), ?_, fun orderId => ?_⟩
  · intro j request certificateId h
    obtain ⟨orderId, hid, hprocessing⟩ := hinv.issued j request certificateId (hold h)
    exact ⟨orderId, hid, hprocessing.imp fun _ hrow => List.mem_append_left _ hrow⟩
  · have hzero : evs.countP (isIssuance orderId) = 0 := by
      rw [List.countP_eq_zero]
      intro ev hev hissue
      obtain ⟨j, request, certificateId, rfl, -⟩ := isIssuance_eq_true hissue
      exact hevs _ _ _ hev
    rw [issuances, World.add_log, List.countP_append, hzero]
    exact hinv.le_one orderId

/-- The only certificate of an order is issued by the task that set it to `processing`. -/
theorem issuances_after_le_one (hinv : IssuanceInv w) (hcalls : callSpec env t (w.history i) e)
    (orderId : Uuid) : issuances orderId ((acme env).after i n e c w) ≤ 1 := by
  have hspawn : ((acme env).spawnEvents i n e).countP (isIssuance orderId) = 0 := by
    unfold System.spawnEvents
    split <;> rfl
  rw [issuances, System.after, List.countP_append, List.countP_cons, hspawn, Nat.zero_add]
  split_ifs with hissue
  swap
  · exact hinv.le_one orderId
  obtain ⟨j, request, certificateId, hcall, hid⟩ := isIssuance_eq_true hissue
  obtain ⟨rfl, rfl, -⟩ := Event.call.inj hcall
  obtain ⟨_, _, order, _, _, _, -, -, -, hprocessing, hrequest, hnot⟩ := hcalls
  obtain ⟨_, _, hreq⟩ := issueRequest_eq_ok hrequest
  have horder : order.id = orderId := Uuid.toString_injective (hreq.requestId.symm.trans hid)
  rw [horder, processing_history] at hprocessing
  have hzero : w.log.countP (isIssuance orderId) = 0 := by
    rw [List.countP_eq_zero]
    intro ev hev hissue'
    obtain ⟨k, request', certificateId', rfl, hid'⟩ := isIssuance_eq_true hissue'
    obtain ⟨orderId', hid'', hprocessing'⟩ := hinv.issued _ _ _ hev
    obtain rfl : orderId' = orderId := Uuid.toString_injective (hid''.symm.trans hid')
    obtain rfl := hinv.unique _ _ _ hprocessing hprocessing'
    exact hnot _ _ (World.mem_history.mpr hev)
  rw [hzero]

theorem IssuanceInv.after (hca : env.caClient ≠ none) (hinv : IssuanceInv w)
    (hrun : w.Running i t) (hcalls : callSpec env t (w.history i) e)
    (hguard : GuardedOrderWrites w (.call i e (exec e c w.store).1)) :
    IssuanceInv ((acme env).after i n e c w) where
  stays := by
    intro j orderId hset
    rcases setProcessing_after hset with hold | ⟨rfl, rfl, row, hrow⟩
    · obtain ⟨hex, hall⟩ := hinv.stays j orderId hold
      refine status_of_call hca hcalls ?_ hex hall
      -- a validation task would have to find the order `pending` or `ready`
      rintro challenge rfl rfl
      obtain ⟨row, hrow, hid, hstatus⟩ := hguard.ready i challenge _ _ hrun.started rfl
      rcases hall row hrow hid with h | h <;> rw [h] at hstatus <;> simp at hstatus
    · obtain ⟨hex, hall⟩ := orders_of_updateOrderStatus hrow
      exact ⟨hex, fun row hrow hid => .inl (hall row hrow hid)⟩
  unique := by
    -- the guard of a second write would need a `ready` order
    have hnone {j orderId} (hset : SetProcessing w j orderId)
        (he : e = .db (.updateOrderStatus orderId "processing")) : False := by
      subst he
      obtain ⟨row, hrow, hid, hstatus⟩ := hguard.processing i _ _ rfl
      rcases (hinv.stays j _ hset).2 row hrow hid with h | h <;> rw [h] at hstatus <;>
        simp at hstatus
    intro j k orderId hj hk
    rcases setProcessing_after hj with hj' | ⟨hji, hj', -⟩ <;>
      rcases setProcessing_after hk with hk' | ⟨hki, hk', -⟩
    · exact hinv.unique j k orderId hj' hk'
    · exact (hnone hj' hk').elim
    · exact (hnone hk' hj').elim
    · rw [hji, hki]
  issued := by
    intro j request certificateId h
    rcases (System.call_mem_after _).mp h with hold | hnew
    · obtain ⟨orderId, hid, hprocessing⟩ := hinv.issued j request certificateId hold
      exact ⟨orderId, hid, hprocessing.after⟩
    · obtain ⟨rfl, rfl, -⟩ := Event.call.inj hnew
      obtain ⟨_, _, order, _, _, _, -, -, -, hprocessing, hrequest, -⟩ := hcalls
      obtain ⟨_, _, hreq⟩ := issueRequest_eq_ok hrequest
      exact ⟨order.id, hreq.requestId, (processing_history.mp hprocessing).after⟩
  le_one := issuances_after_le_one hinv hcalls

end

/-- A step of a run in which only requests arrive and the writes of order statuses are guarded. -/
def GuardedFinalize (w : AcmeWorld) (ev : AcmeEvent) : Prop :=
  OnlyRequests w ev ∧ GuardedOrderWrites w ev

theorem issuanceInv_preserves {env : Env} (hca : env.caClient ≠ none) :
    (acme env).Preserves (acmeSpec env) GuardedFinalize (fun _ => True) IssuanceInv where
  start _ _ h _ _ := h.add (by simp)
  call _ _ h hrun _ hcalls hguard := h.after hca hrun hcalls hguard.2
  finish _ _ h _ _ _ := h.add (by simp)
  abort _ _ h _ _ := h.add (by simp)

/-- Without a CA client no certificate is asked for. -/
theorem issuances_eq_zero_preserves {env : Env} (hca : env.caClient = none) :
    (acme env).Preserves (acmeSpec env) GuardedFinalize (fun _ => True)
      (fun w => ∀ orderId, issuances orderId w = 0) where
  start _ _ h _ _ orderId := by
    rw [issuances, World.add_log, List.countP_append]
    exact (Nat.add_zero _).trans (h orderId)
  call := by
    intro w i n t e c _ _ h _ _ hcalls _ orderId
    have hspawn : ((acme env).spawnEvents i n e).countP (isIssuance orderId) = 0 := by
      unfold System.spawnEvents
      split <;> rfl
    rw [issuances, System.after, List.countP_append, List.countP_cons, hspawn, Nat.zero_add]
    split_ifs with hissue
    · obtain ⟨j, request, certificateId, hcall, -⟩ := isIssuance_eq_true hissue
      obtain ⟨rfl, rfl, -⟩ := Event.call.inj hcall
      obtain ⟨_, _, _, _, _, _, -, -, hsome, -⟩ := hcalls
      exact absurd hca hsome
    · exact h orderId
  finish _ _ h _ _ _ orderId := by
    rw [issuances, World.add_log, List.countP_append]
    exact (Nat.add_zero _).trans (h orderId)
  abort _ _ h _ _ orderId := by
    rw [issuances, World.add_log, List.countP_append]
    exact (Nat.add_zero _).trans (h orderId)

/-- **At most one certificate per order**, in every run whose writes of order statuses are
guarded. -/
theorem issuances_le_one (env : Env) {cfg : AcmeConfig}
    (hreach : (acme env).Reach GuardedFinalize (System.initial {}) cfg) (orderId : Uuid) :
    issuances orderId cfg.world ≤ 1 := by
  by_cases hca : env.caClient = none
  · have hinv := (issuances_eq_zero_preserves hca).reach (acme_meets env) (fun _ => rfl) hreach
    rw [hinv.2 orderId]
    exact Nat.zero_le 1
  · have hinit : IssuanceInv (⟨{}, []⟩ : AcmeWorld) :=
      ⟨fun _ _ h => by simp [SetProcessing] at h, fun _ _ _ h => by simp [SetProcessing] at h,
        fun _ _ _ h => by simp at h, fun _ => Nat.zero_le 1⟩
    exact ((issuanceInv_preserves hca).reach (acme_meets env) hinit hreach).2.le_one orderId

/-! ### Runs -/

open Instance

/-- Two finalize requests read the order before either writes `processing`. -/
def finalizeTwice : List (Action Task Choice) :=
  .arrive (.finalizeOrder ("order-" ++ uuid 20) [3])
    :: .arrive (.finalizeOrder ("order-" ++ uuid 20) [4])
    :: steps 9 70 5 ++ steps 10 80 5 ++ steps 9 90 3 ++ steps 10 100 3

/-- Two certificates for one order. -/
theorem twice_issued : ∃ cfg, (acme (wire orderMessages)).Reach OnlyRequests
    (System.initial {}) cfg ∧
    issuances ⟨22⟩ cfg.world = 2 := by
  have hrun : ((acme (wire orderMessages)).run onlyRequests (toReady ++ finalizeTwice)
      (System.initial {})).map (fun cfg => issuances ⟨22⟩ cfg.world) = some 2 := by
    decide +kernel
  obtain ⟨cfg, hcfg, hissued⟩ := Option.map_eq_some_iff.mp hrun
  exact ⟨cfg, System.reach_of_run onlyRequests_sound _ hcfg, hissued⟩

/-- `GuardedFinalize` as a check (of every write of `ready`). -/
def guardedFinalize (w : AcmeWorld) : AcmeEvent → Bool
  | .start _ (.validation _) none => false
  | .call _ (.db (.updateOrderStatus orderId status)) _ =>
    if status = "processing" then
      w.store.orders.any fun o => o.id = orderId && o.status = "ready"
    else if status = "ready" then
      w.store.orders.any fun o => o.id = orderId && (o.status = "pending" || o.status = "ready")
    else true
  | _ => true

theorem guardedFinalize_sound (w : AcmeWorld) (ev : AcmeEvent) (h : guardedFinalize w ev = true) :
    GuardedFinalize w ev := by
  refine ⟨?_, ?_, ?_⟩
  · rintro i challenge rfl
    cases h
  · rintro i orderId r rfl
    obtain ⟨row, hrow, hrow'⟩ := List.any_eq_true.mp h
    exact ⟨row, hrow, by simpa using hrow'⟩
  · rintro i challenge orderId r - rfl
    obtain ⟨row, hrow, hrow'⟩ := List.any_eq_true.mp h
    exact ⟨row, hrow, by simpa using hrow'⟩

/-- A run with one finalize request, which gets its certificate. -/
theorem issuances_le_one_one_finalize :
    ∃ cfg, (acme (wire orderMessages)).Reach GuardedFinalize (System.initial {}) cfg ∧
      issuances ⟨22⟩ cfg.world = 1 ∧ issuances ⟨22⟩ cfg.world ≤ 1 := by
  have hrun : ((acme (wire orderMessages)).run guardedFinalize
      (toReady ++ .arrive (.finalizeOrder ("order-" ++ uuid 20) [3]) :: steps 9 70 10)
      (System.initial {})).map (fun cfg => issuances ⟨22⟩ cfg.world) = some 1 := by
    decide +kernel
  obtain ⟨cfg, hcfg, hissued⟩ := Option.map_eq_some_iff.mp hrun
  have hreach := System.reach_of_run guardedFinalize_sound _ hcfg
  exact ⟨cfg, hreach, hissued, issuances_le_one _ hreach _⟩

end Ostrich.Acme
