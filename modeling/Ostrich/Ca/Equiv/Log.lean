import Ostrich.Ca.Equiv.Rest

/-!
# What the log of the certificate authority says

`Ran log i q`: task `i` ran the statement `q`, whether or not it got the result.  `query_at` gives
back the state in which a statement of the log ran; from it, the log and the tables agree
(`ran_createCrl`, `ran_revoke`, `ran_markRequestCompleted`, `crl_ran`).
-/

namespace Ostrich.Ca

open Common Interleave Table

/-- Task `i` ran `q`. -/
def Ran (log : List CaEvent) (i : ℕ) (q : Query) : Prop :=
  ∃ r : DbReply q.Result, .call i (.db q) r ∈ log ∧ r.applied = true

/-- Task `i` got the result `a` of `q`. -/
def Answered (log : List CaEvent) (i : ℕ) (q : Query) (a : q.Result) : Prop :=
  .call i (.db q) (.ok a) ∈ log

theorem Answered.ran {log : List CaEvent} {i : ℕ} {q : Query} {a : q.Result}
    (h : Answered log i q a) : Ran log i q := ⟨.ok a, h, rfl⟩

theorem Ran.mono {log log' : List CaEvent} {i : ℕ} {q : Query} (h : Ran log i q)
    (hlog : log ⊆ log') : Ran log' i q :=
  h.imp fun _ hr => ⟨hlog hr.1, hr.2⟩

variable {env : Env} {allowed : CaWorld → CaEvent → Prop} {cfg : CaConfig}

/-! ### The state of a statement -/

/-- Task `i`, which runs as `t`, made the statement `q` in the state `mid`. -/
structure QueryAt (env : Env) (allowed : CaWorld → CaEvent → Prop) (cfg mid : CaConfig) (i : ℕ)
    (t : Task) (q : Query) (r : DbReply q.Result) : Prop where
  reach : (system env).Reach allowed (System.initial {}) mid
  started : mid.world.Started i t
  calls : callSpec env t (mid.world.history i) (.db q)
  admitted : allowed mid.world (.call i (.db q) r)
  step : ∃ a next, (system env).step mid a = some (.call i (.db q) r, next) ∧
    (system env).Reach allowed next cfg
  evolves : mid.world.store.Evolves cfg.world.store
  run : ∀ a, r = .ok a → ∃ now s, q.run now mid.world.store = .ok (a, s)
  effect : r.applied = true → ∃ now s, Effect now mid.world.store q s ∧ s.Evolves cfg.world.store

theorem query_at (hreach : (system env).Reach allowed (System.initial {}) cfg)
    {pre post : List CaEvent} {i : ℕ} {q : Query} {r : DbReply q.Result}
    (hlog : cfg.world.log = pre ++ .call i (.db q) r :: post) :
    ∃ mid t, mid.world.log = pre ∧ QueryAt env allowed cfg mid i t q r := by
  obtain ⟨mid, t, c, hmid, hpre, hmade⟩ := hreach.made (ca_meets env) hlog
  obtain ⟨n, a, next, hstep, hnext, hrest⟩ := hmade.rest
  have hafter : (exec (.db q) c mid.world.store).2.Evolves cfg.world.store := by
    have := reach_evolves hrest
    rwa [hnext] at this
  have hreply : r = (q.exec c.fault c.now mid.world.store).1 := hmade.reply
  refine ⟨mid, t, hpre, hmid, hmade.running.started, hmade.calls, hmade.admitted,
    ⟨a, next, hstep, hrest⟩, (exec_evolves _ _ _).trans hafter, fun a ha => ?_, fun happlied => ?_⟩
  · exact ⟨c.now, _, Query.run_of_exec_ok (hreply.symm.trans ha)⟩
  · rcases q.exec_effect c.fault c.now mid.world.store with ⟨-, heffect⟩ | ⟨hnot, -⟩
    · exact ⟨c.now, _, heffect, hafter⟩
    · rw [← hreply, happlied] at hnot
      cases hnot

/-- The state in which a task ran a statement. -/
theorem ran_at (hreach : (system env).Reach allowed (System.initial {}) cfg) {i : ℕ} {q : Query}
    (h : Ran cfg.world.log i q) : ∃ mid t now s, mid.world.log ⊆ cfg.world.log ∧
      mid.world.Started i t ∧ callSpec env t (mid.world.history i) (.db q) ∧
      (system env).Reach allowed (System.initial {}) mid ∧ Effect now mid.world.store q s ∧
      s.Evolves cfg.world.store := by
  obtain ⟨r, hmem, happlied⟩ := h
  obtain ⟨pre, post, hlog⟩ := List.append_of_mem hmem
  obtain ⟨mid, t, hpre, hat⟩ := query_at hreach hlog
  obtain ⟨now, s, heffect, hevolves⟩ := hat.effect happlied
  refine ⟨mid, t, now, s, ?_, hat.started, hat.calls, hat.reach, heffect, hevolves⟩
  rw [hpre, hlog]
  exact List.subset_append_left _ _

/-! ### The log and the tables -/

/-- A request that is read is in the table. -/
theorem mem_of_getRequest {id : Uuid} {now : DateTime} {s s' : Store}
    {read : ApprovalRequestRecord}
    (h : Query.run (.getRequest id) now s = .ok (some read, s')) :
    read ∈ s.requests ∧ read.id = id := by
  have hfind := (Prod.mk.inj (Except.ok.inj h)).1
  exact ⟨List.mem_of_find?_eq_some hfind, by simpa using List.find?_some hfind⟩

section

variable (hreach : (system env).Reach allowed (System.initial {}) cfg)

include hreach

theorem ran_createCrl {i : ℕ} {crl : Crl} (h : Ran cfg.world.log i (.createCrl crl)) :
    crl.stored ∈ cfg.world.store.crls := by
  obtain ⟨mid, t, now, s, -, -, -, -, heffect, hevolves⟩ := ran_at hreach h
  cases heffect with
  | read hq => cases hq
  | createCrl hnew => exact hevolves.crls (List.mem_append_right _ (List.mem_singleton_self _))

theorem ran_revoke {i : ℕ} {id : Uuid} {reason : ℤ}
    (h : Ran cfg.world.log i (.revoke id reason)) :
    ∃ c ∈ cfg.world.store.certificates, c.id = id ∧ c.revoked = true := by
  obtain ⟨mid, t, now, s, -, -, -, -, heffect, hevolves⟩ := ran_at hreach h
  cases heffect with
  | read hq => cases hq
  | revoke hrow =>
    obtain ⟨c, hc, hid, hrev⟩ := hrow
    have hrevoked : c.asRevoked now reason ∈ updateWhere (fun c => c.id = id && !c.revoked)
        (·.asRevoked now reason) mid.world.store.certificates :=
      mem_updateWhere.mpr ⟨c, hc, by simp [hid, hrev]⟩
    obtain ⟨c', hc', hlater⟩ := hevolves.certificates _ hrevoked
    exact ⟨c', hc', hlater.id.trans hid, by rw [hlater.revoked rfl]; rfl⟩

theorem ran_markRequestCompleted {i : ℕ} {id certificateId : Uuid}
    (h : Ran cfg.world.log i (.markRequestCompleted id certificateId)) :
    ∃ r ∈ cfg.world.store.requests, r.id = id ∧ r.certificateId ≠ none := by
  obtain ⟨mid, t, now, s, -, -, -, -, heffect, hevolves⟩ := ran_at hreach h
  cases heffect with
  | read hq => cases hq
  | markRequestCompleted hrow =>
    obtain ⟨r, hr, hid⟩ := hrow
    have hmarked : r.asCompleted now certificateId ∈ updateWhere (fun r => r.id = id)
        (·.asCompleted now certificateId) mid.world.store.requests :=
      mem_updateWhere.mpr ⟨r, hr, by simp [hid]⟩
    obtain ⟨r', hr', hlater⟩ := hevolves.requests _ hmarked
    exact ⟨r', hr', hlater.id.trans hid, hlater.certificateId (Option.some_ne_none _)⟩

/-- A request that was read is in the table, as it asked then. -/
theorem request_of_read {i : ℕ} {id : Uuid} {read : ApprovalRequestRecord}
    (h : Answered cfg.world.log i (.getRequest id) (some read)) :
    read.id = id ∧ ∃ r ∈ cfg.world.store.requests, read.Later r := by
  obtain ⟨pre, post, hlog⟩ := List.append_of_mem h
  obtain ⟨mid, t, -, hat⟩ := query_at hreach hlog
  obtain ⟨now, s, hrun⟩ := hat.run _ rfl
  obtain ⟨hmem, hid⟩ := mem_of_getRequest hrun
  exact ⟨hid, hat.evolves.requests read hmem⟩

end

/-- Where a change of the store comes from: a statement that the new event says was run. -/
theorem after_effect (i n : ℕ) (e : Call) (c : Choice) (w : CaWorld) :
    (∃ q now, Ran ((system env).after i n e c w).log i q ∧
      Effect now w.store q ((system env).after i n e c w).store ∧ e = .db q) ∨
      ((system env).after i n e c w).store = w.store := by
  cases e with
  | db q =>
    rcases q.exec_effect c.fault c.now w.store with ⟨happlied, heffect⟩ | ⟨-, hsame⟩
    · refine .inl ⟨q, c.now, ⟨_, ?_, happlied⟩, heffect, rfl⟩
      exact List.mem_append_right _ (List.mem_singleton_self _)
    · exact .inr hsame
  | now => exact .inr rfl
  | newUuid => exact .inr rfl
  | randomBytes => exact .inr rfl
  | sign _ => exact .inr rfl
  | audit _ => exact .inr rfl

/-- What a call does to the table of CRLs. -/
theorem after_crls (i n : ℕ) (e : Call) (c : Choice) (w : CaWorld) :
    ((system env).after i n e c w).store.crls = w.store.crls ∨
      ∃ crl, e = .db (.createCrl crl) ∧ Ran ((system env).after i n e c w).log i (.createCrl crl) ∧
        ((system env).after i n e c w).store.crls = w.store.crls ++ [crl.stored] ∧
        ∀ c ∈ w.store.crls, (c.caId, c.crlNumber) ≠ (crl.caId, crl.crlNumber) := by
  rcases @after_effect env i n e c w with ⟨q, now, hran, heffect, rfl⟩ | hsame
  · rcases heffect.crls with hsame | ⟨crl, rfl, hcrls, hnew⟩
    · exact .inl hsame
    · exact .inr ⟨crl, rfl, hran, hcrls, hnew⟩
  · exact .inl (congrArg Store.crls hsame)

theorem log_subset_after (i n : ℕ) (e : Call) (c : Choice) (w : CaWorld) :
    w.log ⊆ ((system env).after i n e c w).log := List.subset_append_left _ _

/-- Every CRL of the table was stored by a task. -/
theorem crl_ran (hreach : (system env).Reach allowed (System.initial {}) cfg) {crl : Crl}
    (hcrl : crl ∈ cfg.world.store.crls) :
    ∃ i crl₀, Ran cfg.world.log i (.createCrl crl₀) ∧ crl₀.stored = crl := by
  have hJ : (system env).Preserves (caSpec env) allowed (fun _ => True) fun w =>
      ∀ crl ∈ w.store.crls, ∃ i crl₀, Ran w.log i (.createCrl crl₀) ∧ crl₀.stored = crl := by
    refine .of_call (fun w ev _ h crl hcrl => ?_) ?_
    · obtain ⟨i, crl₀, hran, heq⟩ := h crl hcrl
      exact ⟨i, crl₀, hran.mono (List.subset_append_left _ _), heq⟩
    · intro w i n t e c _ _ h _ _ _ crl hcrl
      have hold (hcrl : crl ∈ w.store.crls) : ∃ j crl₀,
          Ran ((system env).after i n e c w).log j (.createCrl crl₀) ∧ crl₀.stored = crl := by
        obtain ⟨j, crl₀, hran, heq⟩ := h crl hcrl
        exact ⟨j, crl₀, hran.mono (log_subset_after i n e c w), heq⟩
      rcases @after_crls env i n e c w with hsame | ⟨new, -, hran, hcrls, -⟩
      · rw [hsame] at hcrl
        exact hold hcrl
      · rw [hcrls] at hcrl
        rcases List.mem_append.mp hcrl with hcrl | hcrl
        · exact hold hcrl
        · exact ⟨i, new, hran, (List.mem_singleton.mp hcrl).symm⟩
  exact (hJ.reach (ca_meets env) (fun _ h => absurd h List.not_mem_nil) hreach).2 crl hcrl

/-- A certificate that is revoked has a revocation time. -/
theorem revocationTime_of_revoked (hreach : (system env).Reach allowed (System.initial {}) cfg)
    {cert : Certificate} (hcert : cert ∈ cfg.world.store.certificates)
    (hrevoked : cert.revoked = true) : ∃ t, cert.revocationTime = some t := by
  have hJ : (system env).Preserves (caSpec env) allowed (fun _ => True) fun w =>
      ∀ c ∈ w.store.certificates, c.revoked = true → ∃ t, c.revocationTime = some t := by
    refine .of_call (fun _ _ _ h => h) ?_
    intro w i n t e c _ _ h _ hcalls _ cert hcert
    rcases after_effect i n e c w with ⟨q, now, -, heffect, rfl⟩ | hsame
    · generalize ((system env).after i n (.db q) c w).store = s at heffect hcert
      cases heffect with
      | createCertificate hid hserial =>
        rcases List.mem_append.mp hcert with hcert | hcert
        · exact h cert hcert
        · -- a new certificate is not revoked
          intro hrev
          rw [List.mem_singleton.mp hcert] at hrev
          rcases hcalls with ⟨_, -, hissues⟩ | ⟨-, hnot⟩
          · rw [hissues.not_revoked] at hrev
            cases hrev
          · rw [hnot] at hrev
            cases hrev
      | revoke hrow =>
        obtain ⟨old, hold, rfl⟩ := mem_updateWhere.mp hcert
        split_ifs
        · exact fun _ => ⟨_, rfl⟩
        · exact h old hold
      | _ => exact h cert hcert
    · rw [hsame] at hcert
      exact h cert hcert
  exact (hJ.reach (ca_meets env) (fun _ h => absurd h List.not_mem_nil) hreach).2 cert hcert
    hrevoked

end Ostrich.Ca
