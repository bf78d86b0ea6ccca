import Ostrich.Acme.Equiv.Authorization
import Ostrich.Acme.Equiv.Issuance

/-!
# Final statuses

`valid` and `invalid` are meant to be final, but every status is written by an `UPDATE` that does
not look at the status before: a challenge that is answered again takes its authorization and its
order through the whole life cycle once more (`valid_order_ready_again`).

`final_kept`: final statuses stay in a run in which

* a challenge is answered only if no challenge of its authorization was answered before, and its
  order is `pending` or `ready`;
* an order is set to `processing` only if it is `ready` and none of its challenges is being
  validated;
* the statements that record a confirmed challenge do not fail.

Then each authorization has one validation task at most, which writes each status once.
-/

namespace Ostrich.Acme

open Interleave Table

variable {env : Env} {w : AcmeWorld} {i j k n : ℕ} {t : Task} {e : Call} {c : Choice}

/-- The final statuses. -/
def Final (status : String) : Prop := status = "valid" ∨ status = "invalid"

/-! ### Orderly runs -/

/-- Task `i` has set the challenge to `processing`, and the database has confirmed it. -/
def Answered (w : AcmeWorld) (i : ℕ) (row : AcmeChallenge) : Prop :=
  ∃ challengeId validatedAt errorDetail, .call i (.db (.updateChallengeStatus challengeId
    "processing" validatedAt errorDetail)) (.ok row) ∈ w.log

/-- Task `i` validates a challenge of the authorization, or is about to spawn such a task. -/
def Validating (w : AcmeWorld) (i : ℕ) (authorizationId : Uuid) : Prop :=
  ¬w.Ended i ∧
    ((∃ challenge, w.Started i (.validation challenge) ∧
        challenge.authorizationId = authorizationId) ∨
      (∃ row, Answered w i row ∧ row.authorizationId = authorizationId) ∧
        ∀ challenge, .call i (.spawnValidation challenge) () ∉ w.log)

/-- No challenge of this challenge's authorization has been answered, and its order is `pending`
or `ready`. -/
def Answerable (s : Store) (challengeId : String) : Prop :=
  ∀ row ∈ s.challenges, row.challengeId = challengeId →
    (∀ other ∈ s.challenges, other.authorizationId = row.authorizationId →
      other.status = "pending") ∧
    ∀ a ∈ s.authorizations, a.id = row.authorizationId →
      OrderStatusIn s a.orderId ["pending", "ready"]

/-- A step of an orderly run. -/
structure Orderly (w : AcmeWorld) (ev : AcmeEvent) : Prop where
  requests : OnlyRequests w ev
  answer : ∀ i challengeId validatedAt errorDetail r, ev = .call i (.db (.updateChallengeStatus
    challengeId "processing" validatedAt errorDetail)) r → Answerable w.store challengeId
  finalize : ∀ i orderId r, ev = .call i (.db (.updateOrderStatus orderId "processing")) r →
    OrderStatusIn w.store orderId ["ready"] ∧
      ∀ a ∈ w.store.authorizations, a.orderId = orderId → ∀ j, ¬Validating w j a.id
  record : ∀ i q e, ev = .call i (.db q) (.error e) → q.recordsValidation →
    ¬Confirmed (w.history i)

/-! ### Challenges belong to authorizations -/

/-- The foreign key of challenges. -/
def ChallengesBelong (w : AcmeWorld) : Prop :=
  ∀ row ∈ w.store.challenges, ∃ a ∈ w.store.authorizations, a.id = row.authorizationId

theorem challengesBelong_preserves (env : Env) (allowed : AcmeWorld → AcmeEvent → Prop) :
    (acme env).Preserves (acmeSpec env) allowed (fun _ => True) ChallengesBelong where
  start _ _ h _ _ := h
  call := by
    intro w i n t e c _ _ h _ _ _ _ row hrow
    replace hrow : row ∈ (exec e c w.store).2.challenges := hrow
    have hkeep {id : Uuid} (ha : ∃ a ∈ w.store.authorizations, a.id = id) :
        ∃ a ∈ (exec e c w.store).2.authorizations, a.id = id := by
      obtain ⟨a, ha, rfl⟩ := ha
      obtain ⟨a', ha', hfixed⟩ := (exec_evolves e c w.store).authorizations a ha
      exact ⟨a', ha', (AcmeAuthorization.fixed_eq hfixed).1⟩
    have hchange := exec_challenges e c w.store
    refine hkeep ?_
    generalize (exec e c w.store).2.challenges = rows at hchange hrow
    cases hchange with
    | same => exact h row hrow
    | insert new hcreated _ _ =>
      rcases List.mem_append.mp hrow with hrow | hrow
      · exact h row hrow
      · rw [List.mem_singleton.mp hrow]
        exact hcreated.2
    | update p f hupdated =>
      obtain ⟨_, _, _, _, -, -, rfl⟩ := hupdated
      obtain ⟨old, hold, rfl⟩ := mem_updateWhere.mp hrow
      split_ifs <;> exact h old hold
  finish _ _ h _ _ _ := h
  abort _ _ h _ _ := h

/-- Two rows for one challenge have the same columns. -/
theorem RowsInv.challenge_eq (h : RowsInv w) {a b : AcmeChallenge} (ha : w.store.HasChallenge a)
    (hb : w.store.HasChallenge b) (hname : a.challengeId = b.challengeId) : a.fixed = b.fixed := by
  obtain ⟨ra, hra, hfa⟩ := ha
  obtain ⟨rb, hrb, hfb⟩ := hb
  have hkey : ra.challengeId = rb.challengeId := by
    rw [(AcmeChallenge.fixed_eq hfa).2.1, (AcmeChallenge.fixed_eq hfb).2.1, hname]
  rw [← hfa, ← hfb, h.keys.challenges.2 ra hra rb hrb hkey]

/-! ### Answers -/

theorem Answered.hasChallenge (hrows : RowsInv w) {row : AcmeChallenge} (h : Answered w i row) :
    w.store.HasChallenge row := by
  obtain ⟨_, _, _, hmem⟩ := h
  exact (hrows.known i _ _ hmem).2

theorem Answered.mono {w' : AcmeWorld} {row : AcmeChallenge} (h : Answered w i row)
    (hlog : ∀ ev ∈ w.log, ev ∈ w'.log) : Answered w' i row := by
  obtain ⟨_, _, _, hmem⟩ := h
  exact ⟨_, _, _, hlog _ hmem⟩

theorem answered_add {evs : List AcmeEvent} (hevs : ∀ j e r, .call j e r ∉ evs)
    {row : AcmeChallenge} (h : Answered (w.add evs) i row) : Answered w i row := by
  obtain ⟨_, _, _, hmem⟩ := h
  exact ⟨_, _, _, (List.mem_append.mp hmem).resolve_right (hevs _ _ _)⟩

theorem answered_after {row : AcmeChallenge}
    (h : Answered ((acme env).after i n e c w) j row) :
    Answered w j row ∨ j = i ∧ ∃ challengeId validatedAt errorDetail,
      e = .db (.updateChallengeStatus challengeId "processing" validatedAt errorDetail) ∧
      (exec (.db (.updateChallengeStatus challengeId "processing" validatedAt errorDetail)) c
        w.store).1 = .ok row := by
  obtain ⟨_, _, _, hmem⟩ := h
  rcases (System.call_mem_after _).mp hmem with hold | hnew
  · exact .inl ⟨_, _, _, hold⟩
  · obtain ⟨rfl, rfl, hr⟩ := Event.call.inj hnew
    exact .inr ⟨rfl, _, _, _, rfl, (eq_of_heq hr).symm⟩

/-- A successful write of a status reaches every row of the challenge, and there is one. -/
theorem challenges_of_updateChallengeStatus {s : Store} {challengeId status : String}
    {validatedAt : Option DateTime} {errorDetail : Option ProblemDocument} {row : AcmeChallenge}
    (h : (exec (.db (.updateChallengeStatus challengeId status validatedAt errorDetail)) c s).1
      = .ok row) :
    (∃ old ∈ s.challenges, old.challengeId = challengeId ∧ row.fixed = old.fixed) ∧
      ∀ r ∈ (exec (.db (.updateChallengeStatus challengeId status validatedAt errorDetail)) c
        s).2.challenges, r.challengeId = challengeId → r.status = status := by
  obtain ⟨⟨row', rows⟩, hupd, hrun⟩ := bind_eq_ok (Query.run_of_exec_ok h)
  obtain ⟨rfl, old, hold, hp, hrow⟩ := updateRow_eq_ok hupd
  obtain ⟨rfl, hs⟩ := Prod.mk.inj (Except.ok.inj hrun)
  rw [exec, ← hs, hrow]
  refine ⟨⟨old, hold, of_decide_eq_true hp, rfl⟩, fun r hr hname => ?_⟩
  obtain ⟨old', -, rfl⟩ := mem_updateWhere.mp hr
  split_ifs at hname ⊢ with hp'
  · rfl
  · exact absurd (by simpa using hname) (by simpa using hp')

/-- An authorization is answered once, and then the challenge is no longer `pending`. -/
structure AnswerInv (w : AcmeWorld) : Prop where
  not_pending : ∀ i row, Answered w i row → ∀ r ∈ w.store.challenges,
    r.challengeId = row.challengeId → r.status ≠ "pending"
  unique : ∀ i j row row', Answered w i row → Answered w j row' →
    row.authorizationId = row'.authorizationId → i = j

/-- A challenge that is not `pending` does not become `pending`. -/
theorem not_pending_after (hcalls : callSpec env t (w.history i) e) {challengeId : String}
    (hex : ∃ r ∈ w.store.challenges, r.challengeId = challengeId)
    (hall : ∀ r ∈ w.store.challenges, r.challengeId = challengeId → r.status ≠ "pending") :
    ∀ r ∈ (exec e c w.store).2.challenges, r.challengeId = challengeId →
      r.status ≠ "pending" := by
  intro r hr hname
  obtain ⟨r₀, hr₀, hname₀⟩ := hex
  have hchange := exec_challenges e c w.store
  generalize (exec e c w.store).2.challenges = rows at hchange hr
  cases hchange with
  | same => exact hall r hr hname
  | insert new _ _ hnew =>
    rcases List.mem_append.mp hr with hr | hr
    · exact hall r hr hname
    · rw [List.mem_singleton.mp hr] at hname
      exact absurd (hname₀.trans hname.symm) (hnew r₀ hr₀)
  | update p f hupdated =>
    obtain ⟨_, status, _, _, rfl, rfl, rfl⟩ := hupdated
    obtain ⟨old, hold, rfl⟩ := mem_updateWhere.mp hr
    split_ifs at hname ⊢ with hp
    · show status ≠ "pending"
      rcases hcalls with ⟨_, _, -, rfl, -⟩ | ⟨_, -, -, rfl | rfl, -⟩ <;> decide
    · exact hall old hold hname

/-- The guard of a second answer would need all challenges of the authorization `pending`. -/
theorem AnswerInv.not_answerable (h : AnswerInv w) (hrows : RowsInv w) {row old : AcmeChallenge}
    (hanswered : Answered w i row) (hold : old ∈ w.store.challenges)
    (hauthz : row.authorizationId = old.authorizationId) :
    ¬Answerable w.store old.challengeId := by
  intro hguard
  obtain ⟨r, hr, hfixed⟩ := hanswered.hasChallenge hrows
  obtain ⟨-, hname, hr_authz⟩ := AcmeChallenge.fixed_eq hfixed
  exact h.not_pending i row hanswered r hr hname
    ((hguard old hold rfl).1 r hr (hr_authz.trans hauthz))

theorem AnswerInv.after (hrows : RowsInv w) (h : AnswerInv w)
    (hcalls : callSpec env t (w.history i) e)
    (hguard : Orderly w (.call i e (exec e c w.store).1)) :
    AnswerInv ((acme env).after i n e c w) where
  not_pending := by
    intro j row hanswered
    rcases answered_after hanswered with hold | ⟨-, challengeId, _, _, rfl, hok⟩
    · obtain ⟨r, hr, hfixed⟩ := hold.hasChallenge hrows
      exact not_pending_after hcalls ⟨r, hr, (AcmeChallenge.fixed_eq hfixed).2.1⟩
        (h.not_pending j row hold)
    · obtain ⟨⟨old, -, hname, hfixed⟩, hall⟩ := challenges_of_updateChallengeStatus hok
      intro r hr hr_name
      rw [hall r hr (hr_name.trans ((AcmeChallenge.fixed_eq hfixed).2.1.trans hname))]
      decide
  unique := by
    -- an answer after an old one
    have hnone {k row row'} (hold : Answered w k row)
        (hnew : ∃ challengeId validatedAt errorDetail,
          e = .db (.updateChallengeStatus challengeId "processing" validatedAt errorDetail) ∧
          (exec (.db (.updateChallengeStatus challengeId "processing" validatedAt errorDetail)) c
            w.store).1 = .ok row') : row.authorizationId ≠ row'.authorizationId := by
      obtain ⟨_, _, _, rfl, hok⟩ := hnew
      obtain ⟨⟨old, hmem, rfl, hfixed⟩, -⟩ := challenges_of_updateChallengeStatus hok
      intro hauthz
      exact h.not_answerable hrows hold hmem
        (hauthz.trans (AcmeChallenge.fixed_eq hfixed).2.2) (hguard.answer _ _ _ _ _ rfl)
    intro j k row row' hj hk hauthz
    rcases answered_after hj with hj' | ⟨hji, hj'⟩ <;>
      rcases answered_after hk with hk' | ⟨hki, hk'⟩
    · exact h.unique j k row row' hj' hk' hauthz
    · exact absurd hauthz (hnone hj' hk')
    · exact absurd hauthz.symm (hnone hk' hj')
    · rw [hji, hki]

theorem AnswerInv.add (h : AnswerInv w) {evs : List AcmeEvent}
    (hevs : ∀ j e r, .call j e r ∉ evs) : AnswerInv (w.add evs) where
  not_pending j row hj := h.not_pending j row (answered_add hevs hj)
  unique j k row row' hj hk := h.unique j k row row' (answered_add hevs hj) (answered_add hevs hk)

/-! ### Validation tasks -/

/-- Validation tasks are spawned, one by a task at most, after an answer. -/
structure SpawnInv (w : AcmeWorld) : Prop where
  not_arrived : ∀ j challenge, .start j (.validation challenge) none ∉ w.log
  spawned : ∀ i j t, .start j t (some i) ∈ w.log → ∃ challenge, t = .validation challenge ∧
    .call i (.spawnValidation challenge) () ∈ w.log
  once : ∀ i j k t t', .start j t (some i) ∈ w.log → .start k t' (some i) ∈ w.log → j = k
  answered : ∀ i challenge, .call i (.spawnValidation challenge) () ∈ w.log →
    w.store.HasChallenge challenge ∧
      ∃ row, Answered w i row ∧ row.authorizationId = challenge.authorizationId

/-- The task that spawns a validation has answered the challenge. -/
theorem answered_of_spawn (hrows : RowsInv w) {challenge : AcmeChallenge}
    (hcalls : callSpec env t (w.history i) (.spawnValidation challenge)) :
    w.store.HasChallenge challenge ∧ (∃ row, Answered w i row ∧
      row.authorizationId = challenge.authorizationId) ∧
      ∀ other, .call i (.spawnValidation other) () ∉ w.log := by
  obtain ⟨id, _, row, -, hread, hwrite, hnone⟩ := hcalls
  obtain ⟨hname, hhas⟩ := hrows.known_of_replied hread
  obtain ⟨hname', hhas'⟩ := hrows.known_of_replied hwrite
  have hfixed := hrows.challenge_eq hhas' hhas (hname'.trans hname.symm)
  exact ⟨hhas, ⟨row, ⟨_, _, _, World.mem_history.mp hwrite⟩, (AcmeChallenge.fixed_eq hfixed).2.2⟩,
    fun other hother => hnone other (World.mem_history.mpr hother)⟩

theorem SpawnInv.add (h : SpawnInv w) {evs : List AcmeEvent} (hcall : ∀ j e r, .call j e r ∉ evs)
    (hstart : ∀ j t parent, .start j t parent ∈ evs → parent = none ∧
      ∀ challenge, t ≠ .validation challenge) : SpawnInv (w.add evs) where
  not_arrived j challenge hmem := by
    rcases List.mem_append.mp hmem with hmem | hmem
    · exact h.not_arrived j challenge hmem
    · exact (hstart _ _ _ hmem).2 challenge rfl
  spawned j k t hmem := by
    rcases List.mem_append.mp hmem with hmem | hmem
    · obtain ⟨challenge, ht, hcall'⟩ := h.spawned j k t hmem
      exact ⟨challenge, ht, List.mem_append_left _ hcall'⟩
    · cases (hstart _ _ _ hmem).1
  once l j k t t' hj hk := by
    rcases List.mem_append.mp hj with hj | hj
    · rcases List.mem_append.mp hk with hk | hk
      · exact h.once l j k t t' hj hk
      · cases (hstart _ _ _ hk).1
    · cases (hstart _ _ _ hj).1
  answered j challenge hmem := by
    obtain ⟨hhas, row, hrow, hauthz⟩ :=
      h.answered j challenge ((List.mem_append.mp hmem).resolve_right (hcall _ _ _))
    exact ⟨hhas, row, hrow.mono fun _ => List.mem_append_left _, hauthz⟩

/-- Only `spawnValidation` starts a task. -/
theorem spawned_eq_some {t' : Task} (h : (acme env).spawned e = some t') :
    ∃ challenge, e = .spawnValidation challenge ∧ t' = .validation challenge := by
  cases e with
  | spawnValidation challenge => exact ⟨challenge, rfl, (Option.some.inj h).symm⟩
  | db | newUuid | now | recordAudit | validate | isRequestAllowed | issueCertificate => cases h

theorem SpawnInv.after (hrows : RowsInv w) (h : SpawnInv w)
    (hcalls : callSpec env t (w.history i) e) : SpawnInv ((acme env).after i n e c w) where
  not_arrived j challenge hmem := by
    rcases (System.start_mem_after _).mp hmem with hold | ⟨-, -, hnone⟩
    · exact h.not_arrived j challenge hold
    · cases hnone
  spawned l j t' hmem := by
    rcases (System.start_mem_after _).mp hmem with hold | ⟨hspawned, -, hl⟩
    · obtain ⟨challenge, ht, hcall⟩ := h.spawned l j t' hold
      exact ⟨challenge, ht, System.mem_after_of_mem _ hcall⟩
    · obtain ⟨challenge, rfl, rfl⟩ := spawned_eq_some hspawned
      obtain rfl := Option.some.inj hl
      exact ⟨challenge, rfl, (System.call_mem_after _).mpr (.inr rfl)⟩
  once := by
    -- a task that has spawned a task spawns no other
    have hnone {l j t₁ t₂} (hold : .start j t₁ (some l) ∈ w.log)
        (hspawned : (acme env).spawned e = some t₂) : l ≠ i := by
      rintro rfl
      obtain ⟨challenge, rfl, -⟩ := spawned_eq_some hspawned
      obtain ⟨other, -, hother⟩ := h.spawned l j t₁ hold
      exact (answered_of_spawn hrows hcalls).2.2 other hother
    intro l j k t₁ t₂ hj hk
    rcases (System.start_mem_after _).mp hj with hj' | ⟨hj', hjn, hl⟩ <;>
      rcases (System.start_mem_after _).mp hk with hk' | ⟨hk', hkn, hl'⟩
    · exact h.once l j k t₁ t₂ hj' hk'
    · exact absurd (Option.some.inj hl') (hnone hj' hk')
    · exact absurd (Option.some.inj hl) (hnone hk' hj')
    · rw [hjn, hkn]
  answered := by
    have hmono {j challenge} (ha : w.store.HasChallenge challenge ∧
        ∃ row, Answered w j row ∧ row.authorizationId = challenge.authorizationId) :
        (exec e c w.store).2.HasChallenge challenge ∧ ∃ row,
          Answered ((acme env).after i n e c w) j row ∧
            row.authorizationId = challenge.authorizationId := by
      obtain ⟨hhas, row, hrow, hauthz⟩ := ha
      exact ⟨(exec_evolves e c w.store).hasChallenge hhas, row,
        hrow.mono fun _ => System.mem_after_of_mem _, hauthz⟩
    intro j challenge hmem
    rcases (System.call_mem_after _).mp hmem with hold | hnew
    · exact hmono (h.answered j challenge hold)
    · obtain ⟨rfl, rfl, -⟩ := Event.call.inj hnew
      obtain ⟨hhas, hrow, -⟩ := answered_of_spawn hrows hcalls
      exact hmono ⟨hhas, hrow⟩

/-- A validation task was spawned by a task that had answered the challenge. -/
theorem SpawnInv.of_started (h : SpawnInv w) {challenge : AcmeChallenge}
    (hstart : w.Started j (.validation challenge)) :
    w.store.HasChallenge challenge ∧ ∃ i row, .start j (.validation challenge) (some i) ∈ w.log ∧
      Answered w i row ∧ row.authorizationId = challenge.authorizationId := by
  obtain ⟨parent, hparent⟩ := hstart
  cases parent with
  | none => exact absurd hparent (h.not_arrived j challenge)
  | some i =>
    obtain ⟨other, hother, hcall⟩ := h.spawned i j _ hparent
    obtain rfl := Task.validation.inj hother
    obtain ⟨hhas, row, hrow, hauthz⟩ := h.answered i _ hcall
    exact ⟨hhas, i, row, hparent, hrow, hauthz⟩

/-- **One validation task** for an authorization. -/
theorem SpawnInv.task_unique (h : SpawnInv w) (hanswer : AnswerInv w)
    {challenge challenge' : AcmeChallenge} (hj : w.Started j (.validation challenge))
    (hk : w.Started k (.validation challenge'))
    (hauthz : challenge.authorizationId = challenge'.authorizationId) : j = k := by
  obtain ⟨-, l, row, hstart, hrow, hl⟩ := h.of_started hj
  obtain ⟨-, l', row', hstart', hrow', hl'⟩ := h.of_started hk
  obtain rfl := hanswer.unique l l' row row' hrow hrow' (hl.trans (hauthz.trans hl'.symm))
  exact h.once l j k _ _ hstart hstart'

/-- What is being validated is an authorization of the table. -/
theorem Validating.mem (hrows : RowsInv w) (hbelong : ChallengesBelong w) (hspawn : SpawnInv w)
    {authorizationId : Uuid} (h : Validating w j authorizationId) :
    ∃ a ∈ w.store.authorizations, a.id = authorizationId := by
  have hmem {challenge : AcmeChallenge} (hhas : w.store.HasChallenge challenge) :
      ∃ a ∈ w.store.authorizations, a.id = challenge.authorizationId := by
    obtain ⟨r, hr, hfixed⟩ := hhas
    rw [← (AcmeChallenge.fixed_eq hfixed).2.2]
    exact hbelong r hr
  obtain ⟨-, ⟨challenge, hstart, rfl⟩ | ⟨⟨row, hrow, rfl⟩, -⟩⟩ := h
  · exact hmem (hspawn.of_started hstart).1
  · exact hmem (hrow.hasChallenge hrows)

/-- How a call can make a task a validating one: by an answer, or by spawning it. -/
theorem validating_after (hrows : RowsInv w) (hrun : w.Running i t)
    (hcalls : callSpec env t (w.history i) e) {authorizationId : Uuid}
    (h : Validating ((acme env).after i n e c w) j authorizationId) :
    (∃ k, Validating w k authorizationId) ∨ ∃ row challengeId validatedAt errorDetail,
      e = .db (.updateChallengeStatus challengeId "processing" validatedAt errorDetail) ∧
      (exec (.db (.updateChallengeStatus challengeId "processing" validatedAt errorDetail)) c
        w.store).1 = .ok row ∧ row.authorizationId = authorizationId := by
  obtain ⟨hended, ⟨challenge, ⟨parent, hparent⟩, hauthz⟩ | ⟨⟨row, hrow, hauthz⟩, hnone⟩⟩ := h
  · rcases (System.start_mem_after _).mp hparent with hold | ⟨hspawned, -, -⟩
    · exact .inl ⟨j, fun hend => hended ((System.ended_after _).mpr hend),
        .inl ⟨challenge, ⟨parent, hold⟩, hauthz⟩⟩
    · -- the parent was about to spawn the task
      obtain ⟨other, rfl, hother⟩ := spawned_eq_some hspawned
      obtain rfl := Task.validation.inj hother
      obtain ⟨-, ⟨row, hrow, hrow_authz⟩, hnone⟩ := answered_of_spawn hrows hcalls
      exact .inl ⟨i, hrun.not_ended, .inr ⟨⟨row, hrow, hrow_authz.trans hauthz⟩, hnone⟩⟩
  · rcases answered_after hrow with hold | ⟨-, challengeId, _, _, he, hok⟩
    · exact .inl ⟨j, fun hend => hended ((System.ended_after _).mpr hend), .inr
        ⟨⟨row, hold, hauthz⟩, fun other hmem => hnone other (System.mem_after_of_mem _ hmem)⟩⟩
    · exact .inr ⟨row, challengeId, _, _, he, hok, hauthz⟩

/-! ### Who wrote a final status -/

/-- No statement failed after a validator had confirmed its challenge. -/
def AllRecorded (w : AcmeWorld) : Prop := ∀ i, ¬FailedToRecord (w.history i)

theorem failedToRecord_append {h : Trace} {s : (e : Call) × Reply e}
    (hfailed : FailedToRecord (h ++ [s])) : FailedToRecord h ∨
      ∃ q e, s = ⟨.db q, .error e⟩ ∧ q.recordsValidation ∧ Confirmed h := by
  obtain ⟨h₁, q, e, h₂, heq, hq, hconfirmed⟩ := hfailed
  rcases List.eq_nil_or_concat h₂ with rfl | ⟨h₂, last, rfl⟩
  · obtain ⟨rfl, hs⟩ := List.append_inj' heq rfl
    exact .inr ⟨q, e, List.singleton_inj.mp hs, hq, hconfirmed⟩
  · rw [List.concat_eq_append, ← List.cons_append, ← List.append_assoc] at heq
    obtain ⟨rfl, -⟩ := List.append_inj' heq rfl
    exact .inl ⟨h₁, q, e, h₂, rfl, hq, hconfirmed⟩

theorem AllRecorded.after (h : AllRecorded w)
    (hguard : Orderly w (.call i e (exec e c w.store).1)) :
    AllRecorded ((acme env).after i n e c w) := by
  intro j hfailed
  rw [System.history_after] at hfailed
  split_ifs at hfailed with hj
  · subst hj
    rcases failedToRecord_append hfailed with hold | ⟨q, err, heq, hq, hconfirmed⟩
    · exact h j hold
    · obtain ⟨rfl, hr⟩ := Sigma.mk.inj heq
      exact hguard.record j q err (by rw [← eq_of_heq hr]; rfl) hq hconfirmed
  · rw [List.append_nil] at hfailed
    exact h j hfailed

theorem AllRecorded.add (h : AllRecorded w) {evs : List AcmeEvent}
    (hevs : ∀ j e r, .call j e r ∉ evs) : AllRecorded (w.add evs) := by
  intro j
  have hnil : World.historyOf j evs = [] := by
    rw [List.eq_nil_iff_forall_not_mem]
    rintro ⟨e, r⟩ hmem
    exact hevs j e r (World.mem_historyOf.mp hmem)
  rw [World.history_add, hnil, List.append_nil]
  exact h j

/-- A validation task has written the status of the challenge. -/
def ChallengeWritten (w : AcmeWorld) (challengeId : String) : Prop :=
  ∃ j challenge, w.Started j (.validation challenge) ∧ challenge.challengeId = challengeId ∧
    ∃ status validatedAt errorDetail r, .call j (.db (.updateChallengeStatus challengeId status
      validatedAt errorDetail)) r ∈ w.log

/-- A validation task has written the status of the authorization. -/
def AuthorizationWritten (w : AcmeWorld) (a : AcmeAuthorization) : Prop :=
  ∃ j challenge, w.Started j (.validation challenge) ∧ challenge.authorizationId = a.id ∧
    ∃ status r, .call j (.db (.updateAuthorizationStatus a.authorizationId status)) r ∈ w.log

/-- A final status was written by a validation task. -/
structure WrittenInv (w : AcmeWorld) : Prop where
  challenges : ∀ row ∈ w.store.challenges, Final row.status → ChallengeWritten w row.challengeId
  authorizations : ∀ row ∈ w.store.authorizations, Final row.status → AuthorizationWritten w row

theorem ChallengeWritten.mono {w' : AcmeWorld} {challengeId : String}
    (h : ChallengeWritten w challengeId) (hlog : ∀ ev ∈ w.log, ev ∈ w'.log) :
    ChallengeWritten w' challengeId := by
  obtain ⟨j, challenge, hstart, hname, _, _, _, _, hmem⟩ := h
  exact ⟨j, challenge, hstart.imp fun _ hp => hlog _ hp, hname, _, _, _, _, hlog _ hmem⟩

theorem AuthorizationWritten.mono {w' : AcmeWorld} {a : AcmeAuthorization}
    (h : AuthorizationWritten w a) (hlog : ∀ ev ∈ w.log, ev ∈ w'.log) :
    AuthorizationWritten w' a := by
  obtain ⟨j, challenge, hstart, hid, _, _, hmem⟩ := h
  exact ⟨j, challenge, hstart.imp fun _ hp => hlog _ hp, hid, _, _, hlog _ hmem⟩

theorem WrittenInv.add (h : WrittenInv w) (evs : List AcmeEvent) : WrittenInv (w.add evs) where
  challenges row hrow hfinal :=
    (h.challenges row hrow hfinal).mono fun _ => List.mem_append_left _
  authorizations row hrow hfinal :=
    (h.authorizations row hrow hfinal).mono fun _ => List.mem_append_left _

theorem not_final_pending : ¬Final "pending" := by
  unfold Final
  decide

theorem not_final_processing : ¬Final "processing" := by
  unfold Final
  decide

/-- The new call is in the log. -/
theorem call_mem_after_self : .call i e (exec e c w.store).1 ∈ ((acme env).after i n e c w).log :=
  (System.call_mem_after _).mpr (.inr rfl)

theorem challengeWritten_after (h : WrittenInv w) (hrun : w.Running i t)
    (hcalls : callSpec env t (w.history i) e) :
    ∀ row ∈ (exec e c w.store).2.challenges, Final row.status →
      ChallengeWritten ((acme env).after i n e c w) row.challengeId := by
  have hmono {challengeId} (hw : ChallengeWritten w challengeId) :
      ChallengeWritten ((acme env).after i n e c w) challengeId :=
    hw.mono fun _ => System.mem_after_of_mem _
  have hself : .call i e (exec e c w.store).1 ∈ ((acme env).after i n e c w).log :=
    call_mem_after_self
  have hlog {ev} (hev : ev ∈ w.log) : ev ∈ ((acme env).after i n e c w).log :=
    System.mem_after_of_mem _ hev
  intro row hrow hfinal
  have hchange := exec_challenges e c w.store
  generalize (exec e c w.store).2.challenges = rows at hchange hrow
  cases hchange with
  | same => exact hmono (h.challenges row hrow hfinal)
  | insert new hcreated _ _ =>
    rcases List.mem_append.mp hrow with hrow | hrow
    · exact hmono (h.challenges row hrow hfinal)
    · -- a new challenge is `pending`
      obtain ⟨⟨_, _, _, _, rfl⟩, -⟩ := hcreated
      rw [List.mem_singleton.mp hrow, show new.status = "pending" from hcalls] at hfinal
      exact absurd hfinal not_final_pending
  | update p f hupdated =>
    obtain ⟨challengeId, status, _, _, rfl, rfl, rfl⟩ := hupdated
    obtain ⟨old, hold, rfl⟩ := mem_updateWhere.mp hrow
    split_ifs at hfinal ⊢ with hp
    · have hname : old.challengeId = challengeId := of_decide_eq_true hp
      rcases hcalls with ⟨_, _, -, rfl, -⟩ | ⟨challenge, rfl, rfl, -, -⟩
      · exact absurd hfinal not_final_processing
      · refine ⟨i, challenge, hrun.started.imp fun _ => hlog, hname.symm, ?_⟩
        rw [hname]
        exact ⟨_, _, _, _, hself⟩
    · exact hmono (h.challenges old hold hfinal)

theorem authorizationWritten_after (hrows : RowsInv w) (h : WrittenInv w) (hrun : w.Running i t)
    (hcalls : callSpec env t (w.history i) e) :
    ∀ row ∈ (exec e c w.store).2.authorizations, Final row.status →
      AuthorizationWritten ((acme env).after i n e c w) row := by
  have hmono {a} (hw : AuthorizationWritten w a) :
      AuthorizationWritten ((acme env).after i n e c w) a :=
    hw.mono fun _ => System.mem_after_of_mem _
  have hself : .call i e (exec e c w.store).1 ∈ ((acme env).after i n e c w).log :=
    call_mem_after_self
  have hlog {ev} (hev : ev ∈ w.log) : ev ∈ ((acme env).after i n e c w).log :=
    System.mem_after_of_mem _ hev
  intro row hrow hfinal
  have hchange := exec_authorizations e c w.store
  generalize (exec e c w.store).2.authorizations = rows at hchange hrow
  cases hchange with
  | same => exact hmono (h.authorizations row hrow hfinal)
  | insert new hcreated _ _ =>
    rcases List.mem_append.mp hrow with hrow | hrow
    · exact hmono (h.authorizations row hrow hfinal)
    · -- a new authorization is `pending`
      obtain ⟨_, _, _, _, _, _, rfl⟩ := hcreated
      rw [List.mem_singleton.mp hrow, show new.status = "pending" from hcalls] at hfinal
      exact absurd hfinal not_final_pending
  | update p f hupdated =>
    obtain ⟨name, status, rfl, rfl, rfl⟩ := hupdated
    obtain ⟨old, hold, rfl⟩ := mem_updateWhere.mp hrow
    split_ifs at hfinal ⊢ with hp
    · have hname : old.authorizationId = name := of_decide_eq_true hp
      obtain ⟨challenge, authz, rfl, hread, rfl, -, -⟩ := hcalls
      obtain ⟨hid, hhas⟩ := hrows.known_of_replied hread
      have hfixed := AcmeAuthorization.fixed_eq (hrows.authorization_eq hhas hold hname)
      refine ⟨i, challenge, hrun.started.imp fun _ => hlog, hid.symm.trans hfixed.1.symm, ?_⟩
      dsimp only
      rw [hname]
      exact ⟨_, _, hself⟩
    · exact hmono (h.authorizations old hold hfinal)

theorem WrittenInv.after (hrows : RowsInv w) (h : WrittenInv w) (hrun : w.Running i t)
    (hcalls : callSpec env t (w.history i) e) : WrittenInv ((acme env).after i n e c w) :=
  ⟨challengeWritten_after h hrun hcalls, authorizationWritten_after hrows h hrun hcalls⟩

/-! ### Orders -/

/-- Orders become final after they were set to `processing`; then they stay `processing` or
`valid`, and their challenges are not validated any more. -/
structure OrderInv (env : Env) (w : AcmeWorld) : Prop where
  final : ∀ row ∈ w.store.orders, Final row.status →
    env.caClient ≠ none ∧ ∃ j, SetProcessing w j row.id
  stays : env.caClient ≠ none → StaysProcessing w
  settled : env.caClient ≠ none → ∀ j orderId, SetProcessing w j orderId →
    ∀ a ∈ w.store.authorizations, a.orderId = orderId → ∀ k, ¬Validating w k a.id

theorem not_final_ready : ¬Final "ready" := by
  unfold Final
  decide

/-- A validation task that sets the order to `ready` validates one of its challenges. -/
theorem validating_of_ready (hrows : RowsInv w) {challenge : AcmeChallenge}
    (hrun : w.Running i (.validation challenge)) {authz : AcmeAuthorization} {order : AcmeOrder}
    (hread : Replied (w.history i) (.findAuthorizationByUuid challenge.authorizationId)
      (some authz))
    (horder : Replied (w.history i) (.findOrderByUuid authz.orderId) (some order)) :
    ∃ a ∈ w.store.authorizations, a.orderId = order.id ∧ Validating w i a.id := by
  obtain ⟨hid, a, ha, hfixed⟩ := hrows.known_of_replied hread
  obtain ⟨hoid, -⟩ := hrows.known_of_replied horder
  obtain ⟨ha_id, -, ha_order, -⟩ := AcmeAuthorization.fixed_eq hfixed
  exact ⟨a, ha, ha_order.trans hoid.symm, hrun.not_ended, .inl
    ⟨challenge, hrun.started, hid.symm.trans ha_id.symm⟩⟩

/-- An order becomes final by the write of `valid` of the task that set it to `processing`. -/
theorem OrderInv.final_after (h : OrderInv env w) (hcalls : callSpec env t (w.history i) e) :
    ∀ row ∈ (exec e c w.store).2.orders, Final row.status →
      env.caClient ≠ none ∧ ∃ j, SetProcessing ((acme env).after i n e c w) j row.id := by
  have hmono {orderId} (hw : env.caClient ≠ none ∧ ∃ j, SetProcessing w j orderId) :
      env.caClient ≠ none ∧ ∃ j, SetProcessing ((acme env).after i n e c w) j orderId :=
    ⟨hw.1, hw.2.imp fun _ hj => hj.after⟩
  intro row hrow hfinal
  have hchange := exec_orders e c w.store
  generalize (exec e c w.store).2.orders = rows at hchange hrow
  cases hchange with
  | same => exact hmono (h.final row hrow hfinal)
  | insert new hcreated _ _ =>
    rcases List.mem_append.mp hrow with hrow | hrow
    · exact hmono (h.final row hrow hfinal)
    · -- a new order is `pending`
      obtain ⟨_, _, _, _, _, _, rfl⟩ := hcreated
      rw [List.mem_singleton.mp hrow, show new.status = "pending" from hcalls] at hfinal
      exact absurd hfinal not_final_pending
  | update p f hupdated =>
    obtain ⟨orderId, rfl, ⟨status, rfl, rfl⟩ | ⟨_, _, rfl, rfl⟩⟩ := hupdated
    · obtain ⟨old, hold, rfl⟩ := mem_updateWhere.mp hrow
      split_ifs at hfinal ⊢ with hp
      · obtain rfl : old.id = orderId := of_decide_eq_true hp
        rcases hcalls with ⟨_, _, _, _, _, -, -, -, rfl | ⟨rfl, -⟩ | ⟨-, hca, hprocessing⟩⟩ |
          ⟨_, _, _, -, rfl, -⟩
        · exact absurd hfinal not_final_processing
        · exact absurd hfinal not_final_ready
        · exact hmono ⟨hca, i, processing_history.mp hprocessing⟩
        · exact absurd hfinal not_final_ready
      · exact hmono (h.final old hold hfinal)
    · obtain ⟨old, hold, rfl⟩ := mem_updateWhere.mp hrow
      split_ifs at hfinal ⊢ <;> exact hmono (h.final old hold hfinal)

theorem OrderInv.stays_after (hrows : RowsInv w) (h : OrderInv env w) (hrun : w.Running i t)
    (hcalls : callSpec env t (w.history i) e) (hca : env.caClient ≠ none) :
    StaysProcessing ((acme env).after i n e c w) := by
  intro j orderId hset
  rcases setProcessing_after hset with hold | ⟨rfl, rfl, row, hrow⟩
  · obtain ⟨hex, hall⟩ := h.stays hca j orderId hold
    refine status_of_call hca hcalls ?_ hex hall
    rintro challenge rfl rfl
    rcases hcalls with ⟨_, _, _, _, _, ht, -⟩ | ⟨_, _, _, ht, -, hread, horder, rfl⟩
    · cases ht
    · obtain rfl := Task.validation.inj ht
      obtain ⟨a, ha, ha_order, hvalidating⟩ := validating_of_ready hrows hrun hread horder
      exact h.settled hca j _ hold a ha ha_order i hvalidating
  · obtain ⟨hex, hall⟩ := orders_of_updateOrderStatus hrow
    exact ⟨hex, fun row hrow hid => .inl (hall row hrow hid)⟩

/-- An authorization after a call was there before, or is new. -/
theorem authorization_before {a : AcmeAuthorization}
    (ha : a ∈ (exec e c w.store).2.authorizations) :
    (∃ a' ∈ w.store.authorizations, a'.id = a.id ∧ a'.orderId = a.orderId) ∨
      (∀ a' ∈ w.store.authorizations, a'.id ≠ a.id) ∧ ∃ authorizationId orderId type value status
        expires wildcard, e = .db (.createAuthorization authorizationId orderId type value status
          expires wildcard) := by
  have hchange := exec_authorizations e c w.store
  generalize (exec e c w.store).2.authorizations = rows at hchange ha
  cases hchange with
  | same => exact .inl ⟨a, ha, rfl, rfl⟩
  | insert new hcreated hid _ =>
    rcases List.mem_append.mp ha with ha | ha
    · exact .inl ⟨a, ha, rfl, rfl⟩
    · obtain ⟨_, _, _, _, _, _, rfl⟩ := hcreated
      rw [List.mem_singleton.mp ha]
      exact .inr ⟨hid, _, _, _, _, _, _, _, rfl⟩
  | update p f hupdated =>
    obtain ⟨_, _, -, -, rfl⟩ := hupdated
    obtain ⟨old, hold, rfl⟩ := mem_updateWhere.mp ha
    refine .inl ⟨old, hold, ?_⟩
    split_ifs <;> exact ⟨rfl, rfl⟩

/-- An answer is not given for an order that was set to `processing`. -/
theorem not_answerable_of_stays (hstays : StaysProcessing w) {orderId : Uuid}
    (hset : SetProcessing w j orderId) {a : AcmeAuthorization} (ha : a ∈ w.store.authorizations)
    (horder : a.orderId = orderId) {row : AcmeChallenge} (hrow : row ∈ w.store.challenges)
    (hauthz : row.authorizationId = a.id) : ¬Answerable w.store row.challengeId := by
  intro hguard
  obtain ⟨o, ho, hid, hstatus⟩ := (hguard row hrow rfl).2 a ha hauthz.symm
  rcases (hstays j orderId hset).2 o ho (hid.trans horder) with h | h <;>
    rw [h] at hstatus <;> simp at hstatus

theorem OrderInv.settled_after (hrows : RowsInv w) (hbelong : ChallengesBelong w)
    (hspawn : SpawnInv w) (h : OrderInv env w) (hrun : w.Running i t)
    (hcalls : callSpec env t (w.history i) e)
    (hguard : Orderly w (.call i e (exec e c w.store).1)) (hca : env.caClient ≠ none)
    {orderId : Uuid} (hset : SetProcessing ((acme env).after i n e c w) j orderId) :
    ∀ a ∈ (exec e c w.store).2.authorizations, a.orderId = orderId →
      ∀ k, ¬Validating ((acme env).after i n e c w) k a.id := by
  intro a ha horder k hvalidating
  have hbefore := validating_after hrows hrun hcalls hvalidating
  rcases authorization_before ha with ⟨a', ha', hid, horder'⟩ | ⟨hnew, _, _, _, _, _, _, _, rfl⟩
  · rw [← hid] at hbefore
    rcases setProcessing_after hset with hold | ⟨-, rfl, -⟩
    · rcases hbefore with ⟨k', hk'⟩ | ⟨row, _, _, _, rfl, hok, hrow⟩
      · exact h.settled hca j orderId hold a' ha' (horder'.trans horder) k' hk'
      · obtain ⟨⟨old, hmem, rfl, hfixed⟩, -⟩ := challenges_of_updateChallengeStatus hok
        exact not_answerable_of_stays (h.stays hca) hold ha' (horder'.trans horder) hmem
          ((AcmeChallenge.fixed_eq hfixed).2.2.symm.trans hrow) (hguard.answer _ _ _ _ _ rfl)
    · rcases hbefore with ⟨k', hk'⟩ | ⟨_, _, _, _, he, -⟩
      · exact (hguard.finalize _ _ _ rfl).2 a' ha' (horder'.trans horder) k' hk'
      · cases he
  · -- a new authorization has no challenges yet
    rcases hbefore with ⟨k', hk'⟩ | ⟨_, _, _, _, he, -⟩
    · obtain ⟨a', ha', hid⟩ := hk'.mem hrows hbelong hspawn
      exact hnew a' ha' hid
    · cases he

theorem OrderInv.after (hrows : RowsInv w) (hbelong : ChallengesBelong w) (hspawn : SpawnInv w)
    (h : OrderInv env w) (hrun : w.Running i t) (hcalls : callSpec env t (w.history i) e)
    (hguard : Orderly w (.call i e (exec e c w.store).1)) :
    OrderInv env ((acme env).after i n e c w) where
  final := h.final_after hcalls
  stays := h.stays_after hrows hrun hcalls
  settled hca _ _ hset := h.settled_after hrows hbelong hspawn hrun hcalls hguard hca hset

/-- A task that was started as something else or has ended does not validate more. -/
theorem validating_add {evs : List AcmeEvent} (hcall : ∀ j e r, .call j e r ∉ evs)
    (hstart : ∀ j challenge parent, .start j (.validation challenge) parent ∉ evs)
    {authorizationId : Uuid} (h : Validating (w.add evs) k authorizationId) :
    Validating w k authorizationId := by
  obtain ⟨hended, htask⟩ := h
  refine ⟨fun hend => hended ?_, ?_⟩
  · exact hend.imp (fun ⟨r, hr⟩ => ⟨r, List.mem_append_left _ hr⟩) (List.mem_append_left _)
  · rcases htask with ⟨challenge, ⟨parent, hparent⟩, hauthz⟩ | ⟨⟨row, hrow, hauthz⟩, hnone⟩
    · exact .inl ⟨challenge, ⟨parent,
        (List.mem_append.mp hparent).resolve_right (hstart _ _ _)⟩, hauthz⟩
    · exact .inr ⟨⟨row, answered_add hcall hrow, hauthz⟩,
        fun other hother => hnone other (List.mem_append_left _ hother)⟩

theorem OrderInv.add (h : OrderInv env w) {evs : List AcmeEvent}
    (hcall : ∀ j e r, .call j e r ∉ evs)
    (hstart : ∀ j challenge parent, .start j (.validation challenge) parent ∉ evs) :
    OrderInv env (w.add evs) := by
  have hset {j orderId} (hs : SetProcessing (w.add evs) j orderId) : SetProcessing w j orderId :=
    hs.imp fun _ hrow => (List.mem_append.mp hrow).resolve_right (hcall _ _ _)
  refine ⟨fun row hrow hfinal => ?_, fun hca j orderId hs => h.stays hca j orderId (hset hs), ?_⟩
  · obtain ⟨hca, j, hj⟩ := h.final row hrow hfinal
    exact ⟨hca, j, hj.imp fun _ hmem => List.mem_append_left _ hmem⟩
  · intro hca j orderId hs a ha horder k hvalidating
    exact h.settled hca j orderId (hset hs) a ha horder k (validating_add hcall hstart hvalidating)

/-! ### Final statuses stay -/

/-- All of the above. -/
structure StatusInv (env : Env) (w : AcmeWorld) : Prop where
  rows : RowsInv w
  belong : ChallengesBelong w
  answers : AnswerInv w
  spawns : SpawnInv w
  recorded : AllRecorded w
  written : WrittenInv w
  orders : OrderInv env w

theorem StatusInv.add (h : StatusInv env w) {evs : List AcmeEvent} (hrows : RowsInv (w.add evs))
    (hcall : ∀ j e r, .call j e r ∉ evs)
    (hstart : ∀ j t parent, .start j t parent ∈ evs → parent = none ∧
      ∀ challenge, t ≠ .validation challenge) : StatusInv env (w.add evs) where
  rows := hrows
  belong := h.belong
  answers := h.answers.add hcall
  spawns := h.spawns.add hcall hstart
  recorded := h.recorded.add hcall
  written := h.written.add evs
  orders := h.orders.add hcall fun _ challenge _ hmem => (hstart _ _ _ hmem).2 challenge rfl

theorem statusInv_preserves (env : Env) :
    (acme env).Preserves (acmeSpec env) Orderly (fun _ => True) (StatusInv env) where
  start hwf _ h hn hguard := by
    refine h.add ((rowsInv_preserves env Orderly).start hwf trivial h.rows hn hguard) (by simp) ?_
    intro j t parent hmem
    obtain ⟨rfl, rfl, rfl⟩ := Event.start.inj (List.mem_singleton.mp hmem)
    refine ⟨rfl, ?_⟩
    rintro challenge rfl
    exact hguard.requests _ challenge rfl
  call hwf _ h hrun hn hcalls hguard :=
    ⟨(rowsInv_preserves env Orderly).call hwf trivial h.rows hrun hn hcalls hguard,
      (challengesBelong_preserves env Orderly).call hwf trivial h.belong hrun hn hcalls hguard,
      h.answers.after h.rows hcalls hguard, h.spawns.after h.rows hcalls,
      h.recorded.after hguard, h.written.after h.rows hrun hcalls,
      h.orders.after h.rows h.belong h.spawns hrun hcalls hguard⟩
  finish hwf _ h hrun hres hguard :=
    h.add ((rowsInv_preserves env Orderly).finish hwf trivial h.rows hrun hres hguard) (by simp)
      (by simp)
  abort hwf _ h hrun hguard :=
    h.add ((rowsInv_preserves env Orderly).abort hwf trivial h.rows hrun hguard) (by simp)
      (by simp)

theorem statusInv_initial (env : Env) : StatusInv env (⟨{}, []⟩ : AcmeWorld) where
  rows := rowsInv_initial
  belong := by simp [ChallengesBelong]
  answers := ⟨by simp, by simp [Answered]⟩
  spawns := ⟨by simp, by simp, by simp, by simp⟩
  recorded := by
    rintro i ⟨h₁, q, e, h₂, heq, -⟩
    simp [World.history, World.historyOf] at heq
  written := ⟨by simp, by simp⟩
  orders := ⟨by simp, by simp [StaysProcessing, SetProcessing], by simp⟩

/-- The final statuses of the three tables stay. -/
structure FinalKept (s s' : Store) : Prop where
  orders : Keeps AcmeOrder.id AcmeOrder.status Final s.orders s'.orders
  authorizations : Keeps AcmeAuthorization.id AcmeAuthorization.status Final s.authorizations
    s'.authorizations
  challenges : Keeps AcmeChallenge.id AcmeChallenge.status Final s.challenges s'.challenges

theorem FinalKept.trans {s s' s'' : Store} (h : FinalKept s s') (h' : FinalKept s' s'') :
    FinalKept s s'' :=
  ⟨h.orders.trans h'.orders, h.authorizations.trans h'.authorizations,
    h.challenges.trans h'.challenges⟩

/-- No call changes a final order. -/
theorem orders_kept (h : StatusInv env w) (hrun : w.Running i t)
    (hcalls : callSpec env t (w.history i) e)
    (hguard : Orderly w (.call i e (exec e c w.store).1)) :
    Keeps AcmeOrder.id AcmeOrder.status Final w.store.orders (exec e c w.store).2.orders := by
  refine (exec_orders e c w.store).keeps h.rows.keys.orders.1 ?_ ?_
  · rintro p f ⟨_, -, ⟨_, -, rfl⟩ | ⟨_, _, -, rfl⟩⟩ row <;> rfl
  rintro p f ⟨orderId, rfl, ⟨status, rfl, rfl⟩ | ⟨_, _, -, rfl⟩⟩ row hrow hp hfinal
  swap
  · rfl
  obtain rfl : row.id = orderId := of_decide_eq_true hp
  obtain ⟨hca, j, hset⟩ := h.orders.final row hrow hfinal
  have hstays := (h.orders.stays hca j _ hset).2
  have hvalid : row.status = "valid" := by
    rcases hstays row hrow rfl with hs | hs
    · rw [hs] at hfinal
      exact absurd hfinal not_final_processing
    · exact hs
  rcases hcalls with ⟨_, _, _, _, _, -, -, -, rfl | ⟨-, hnone⟩ | ⟨rfl, -⟩⟩ |
    ⟨challenge, authz, order, rfl, rfl, hread, horder, hid⟩
  · obtain ⟨o, ho, hoid, hready⟩ := (hguard.finalize _ _ _ rfl).1
    rcases hstays o ho hoid with hs | hs <;> rw [hs] at hready <;> simp at hready
  · exact absurd hnone hca
  · exact hvalid.symm
  · obtain ⟨a, ha, ha_order, hvalidating⟩ := validating_of_ready h.rows hrun hread horder
    exact absurd hvalidating (h.orders.settled hca j _ hset a ha (ha_order.trans hid.symm) i)

/-- No call changes a final authorization: its validation task has already written it. -/
theorem authorizations_kept (h : StatusInv env w) (hrun : w.Running i t)
    (hcalls : callSpec env t (w.history i) e) :
    Keeps AcmeAuthorization.id AcmeAuthorization.status Final w.store.authorizations
      (exec e c w.store).2.authorizations := by
  refine (exec_authorizations e c w.store).keeps h.rows.keys.authorizations.1 ?_ ?_
  · rintro p f ⟨_, _, -, -, rfl⟩ row
    rfl
  rintro p f ⟨name, status, rfl, rfl, rfl⟩ row hrow hp hfinal
  have hname : row.authorizationId = name := of_decide_eq_true hp
  obtain ⟨challenge, authz, rfl, hread, rfl, -, hfirst⟩ := hcalls
  obtain ⟨hid, hhas⟩ := h.rows.known_of_replied hread
  have hfixed := AcmeAuthorization.fixed_eq (h.rows.authorization_eq hhas hrow hname)
  obtain ⟨j, challenge', hstart, hauthz, _, _, hwrite⟩ := h.written.authorizations row hrow hfinal
  obtain rfl := h.spawns.task_unique h.answers hstart hrun.started
    (hauthz.trans (hfixed.1.trans hid))
  exact absurd (World.mem_history.mpr hwrite)
    ((hfirst.resolve_left (h.recorded j)) _ _ _)

/-- No call changes a final challenge: an answer would find it `pending`, and its validation task
has already written it. -/
theorem challenges_kept (h : StatusInv env w) (hrun : w.Running i t)
    (hcalls : callSpec env t (w.history i) e)
    (hguard : Orderly w (.call i e (exec e c w.store).1)) :
    Keeps AcmeChallenge.id AcmeChallenge.status Final w.store.challenges
      (exec e c w.store).2.challenges := by
  refine (exec_challenges e c w.store).keeps h.rows.keys.challenges.1 ?_ ?_
  · rintro p f ⟨_, _, _, _, -, -, rfl⟩ row
    rfl
  rintro p f ⟨challengeId, status, _, _, rfl, rfl, rfl⟩ row hrow hp hfinal
  obtain rfl : row.challengeId = challengeId := of_decide_eq_true hp
  rcases hcalls with ⟨_, _, -, rfl, -⟩ | ⟨challenge, rfl, hname, -, hfirst⟩
  · have hpending := (hguard.answer _ _ _ _ _ rfl row hrow rfl).1 row hrow rfl
    rw [hpending] at hfinal
    exact absurd hfinal not_final_pending
  · obtain ⟨j, challenge', hstart, hname', _, _, _, _, hwrite⟩ :=
      h.written.challenges row hrow hfinal
    have hfixed := h.rows.challenge_eq (h.spawns.of_started hstart).1
      (h.spawns.of_started hrun.started).1 (hname'.trans hname)
    obtain rfl := h.spawns.task_unique h.answers hstart hrun.started
      (AcmeChallenge.fixed_eq hfixed).2.2
    exact absurd (World.mem_history.mpr hwrite)
      ((hfirst.resolve_left (h.recorded j)) _ _ _ _ _)

theorem finalKept_preserves (env : Env) (s : Store) :
    (acme env).Preserves (acmeSpec env) Orderly (fun w => True ∧ StatusInv env w)
      (fun w => FinalKept s w.store) where
  start _ _ h _ _ := h
  call _ hI h hrun _ hcalls hguard :=
    h.trans ⟨orders_kept hI.2 hrun hcalls hguard, authorizations_kept hI.2 hrun hcalls,
      challenges_kept hI.2 hrun hcalls hguard⟩
  finish _ _ h _ _ _ := h
  abort _ _ h _ _ := h

/-- **Final statuses stay**: in every orderly run, an order, authorization or challenge that is
`valid` or `invalid` in one state has the same status in every later state. -/
theorem final_kept (env : Env) {mid cfg : AcmeConfig}
    (hmid : (acme env).Reach Orderly (System.initial {}) mid)
    (hcfg : (acme env).Reach Orderly mid cfg) : FinalKept mid.world.store cfg.world.store := by
  obtain ⟨hgood, hinv⟩ :=
    (statusInv_preserves env).reach (acme_meets env) (statusInv_initial env) hmid
  have hkeys := hinv.rows.keys
  have hrefl : FinalKept mid.world.store mid.world.store :=
    ⟨keeps_refl hkeys.orders.1 _ _, keeps_refl hkeys.authorizations.1 _ _,
      keeps_refl hkeys.challenges.1 _ _⟩
  exact ((((statusInv_preserves env).and (finalKept_preserves env mid.world.store)).reach_from
    (acme_meets env) hgood ⟨hinv, hrefl⟩ hcfg).2).2

/-! ### Runs -/

open Instance

/-- The task has ended. -/
def ended (w : AcmeWorld) (i : ℕ) : Bool :=
  w.log.any fun
    | .finish j _ => j = i
    | .abort j => j = i
    | _ => false

theorem ended_sound (h : ended w i = true) : w.Ended i := by
  obtain ⟨ev, hev, hi⟩ := List.any_eq_true.mp h
  split at hi
  · rw [of_decide_eq_true hi] at hev
    exact .inl ⟨_, hev⟩
  · rw [of_decide_eq_true hi] at hev
    exact .inr hev
  · cases hi

/-- Every task that wrote the status of a challenge or was to validate one has ended. -/
def noValidation (w : AcmeWorld) : Bool :=
  w.log.all fun
    | .start i (.validation _) _ => ended w i
    | .call i (.db (.updateChallengeStatus ..)) _ => ended w i
    | _ => true

theorem noValidation_sound (h : noValidation w = true) (authorizationId : Uuid) :
    ¬Validating w i authorizationId := by
  rintro ⟨hended, ⟨challenge, ⟨parent, hparent⟩, -⟩ | ⟨⟨row, ⟨_, _, _, hmem⟩, -⟩, -⟩⟩
  · exact hended (ended_sound (List.all_eq_true.mp h _ hparent))
  · exact hended (ended_sound (List.all_eq_true.mp h _ hmem))

def answerable (s : Store) (challengeId : String) : Bool :=
  s.challenges.all fun row => row.challengeId ≠ challengeId ||
    (s.challenges.all fun other => other.authorizationId ≠ row.authorizationId ||
      other.status = "pending") &&
    s.authorizations.all fun a => a.id ≠ row.authorizationId ||
      s.orders.any fun o => o.id = a.orderId && (o.status = "pending" || o.status = "ready")

theorem answerable_sound {s : Store} {challengeId : String} (h : answerable s challengeId = true) :
    Answerable s challengeId := by
  intro row hrow hname
  have hrow' := List.all_eq_true.mp h row hrow
  rw [hname, Bool.or_eq_true, Bool.and_eq_true, List.all_eq_true, List.all_eq_true] at hrow'
  obtain ⟨hothers, horders⟩ := hrow'.resolve_left (by simp)
  refine ⟨fun other hother hauthz => ?_, fun a ha hid => ?_⟩
  · simpa [hauthz] using hothers other hother
  · obtain ⟨o, ho, ho'⟩ : ∃ o ∈ s.orders, o.id = a.orderId ∧
        (o.status = "pending" ∨ o.status = "ready") := by simpa [hid] using horders a ha
    exact ⟨o, ho, ho'.1, by simpa using ho'.2⟩

/-- `Orderly` as a check (of runs in which no statement fails). -/
def orderly (w : AcmeWorld) : AcmeEvent → Bool
  | .start _ (.validation _) none => false
  | .call _ (.db _) (.error _) => false
  | .call _ (.db (.updateChallengeStatus challengeId status ..)) _ =>
    status ≠ "processing" || answerable w.store challengeId
  | .call _ (.db (.updateOrderStatus orderId status)) _ =>
    status ≠ "processing" ||
      (w.store.orders.any fun o => o.id = orderId && o.status = "ready") && noValidation w
  | _ => true

theorem orderly_sound (w : AcmeWorld) (ev : AcmeEvent) (h : orderly w ev = true) :
    Orderly w ev where
  requests := by
    rintro i challenge rfl
    cases h
  answer := by
    rintro i challengeId validatedAt errorDetail (_ | r) rfl
    · cases h
    · exact answerable_sound h
  finalize := by
    rintro i orderId (_ | r) rfl
    · cases h
    · obtain ⟨hready, hnone⟩ := Bool.and_eq_true_iff.mp h
      obtain ⟨row, hrow, hrow'⟩ := List.any_eq_true.mp hready
      exact ⟨⟨row, hrow, by simpa using hrow'⟩, fun a _ _ j => noValidation_sound hnone a.id⟩
  record := by
    rintro i q e rfl
    cases h

/-- Task 9 finalizes the order; tasks 7 and 8 have ended. -/
def toValid : List (Action Task Choice) :=
  steps 7 80 4 ++ steps 8 90 3 ++ .arrive (.finalizeOrder ("order-" ++ uuid 20) [3])
    :: steps 9 100 15

/-- An orderly run from a `valid` challenge to a `valid` order. -/
theorem final_kept_one_order : ∃ mid cfg : AcmeConfig,
    (acme (wire orderMessages)).Reach Orderly (System.initial {}) mid ∧
    (acme (wire orderMessages)).Reach Orderly mid cfg ∧
    (mid.world.store.challenges.any fun r => r.status = "valid") = true ∧
    (cfg.world.store.orders.any fun r => r.status = "valid") = true ∧
    FinalKept mid.world.store cfg.world.store := by
  have hrun : ((acme (wire orderMessages)).run orderly toReady (System.initial {})).bind (fun mid =>
      ((acme (wire orderMessages)).run orderly toValid mid).map fun cfg =>
        (mid.world.store.challenges.any fun r => r.status = "valid") &&
          cfg.world.store.orders.any fun r => r.status = "valid") = some true := by
    decide +kernel
  obtain ⟨mid, hmid, hrun⟩ := Option.bind_eq_some_iff.mp hrun
  obtain ⟨cfg, hcfg, hvalid⟩ := Option.map_eq_some_iff.mp hrun
  have hmid := System.reach_of_run orderly_sound _ hmid
  have hcfg := System.reach_of_run orderly_sound _ hcfg
  obtain ⟨hchallenge, horder⟩ := Bool.and_eq_true_iff.mp hvalid
  exact ⟨mid, cfg, hmid, hcfg, hchallenge, horder, final_kept _ hmid hcfg⟩

/-- The messages of `orderMessages`, the last one a second answer to the challenge. -/
def answerTwiceMessages : List Message :=
  orderMessages.set 4 { url := "challenge/chall-" ++ uuid 26, nonce := 5,
                        kid := some ("acct-" ++ uuid 10) }

/-- Task 10 answers the challenge again, and task 11 validates it. -/
def answerAgain : List (Action Task Choice) :=
  .arrive (.respondToChallenge ("chall-" ++ uuid 26) [4]) :: steps 10 120 6 ++ steps 11 130 9

/-- A `valid` order that is `ready` again. -/
theorem valid_order_ready_again : ∃ mid cfg : AcmeConfig,
    (acme (wire answerTwiceMessages)).Reach OnlyRequests (System.initial {}) mid ∧
    (acme (wire answerTwiceMessages)).Reach OnlyRequests mid cfg ∧
    ¬FinalKept mid.world.store cfg.world.store := by
  have hrun : ((acme (wire answerTwiceMessages)).run onlyRequests (toReady ++ toValid)
      (System.initial {})).bind (fun mid =>
        ((acme (wire answerTwiceMessages)).run onlyRequests answerAgain mid).map fun cfg =>
          (mid.world.store.orders.map fun o => (o.id, o.status),
            cfg.world.store.orders.map fun o => (o.id, o.status)))
      = some ([(⟨22⟩, "valid")], [(⟨22⟩, "ready")]) := by
    decide +kernel
  obtain ⟨mid, hmid, hrun⟩ := Option.bind_eq_some_iff.mp hrun
  obtain ⟨cfg, hcfg, horders⟩ := Option.map_eq_some_iff.mp hrun
  obtain ⟨hbefore, hafter⟩ := Prod.mk.inj horders
  refine ⟨mid, cfg, System.reach_of_run onlyRequests_sound _ hmid,
    System.reach_of_run onlyRequests_sound _ hcfg, fun hkept => ?_⟩
  obtain ⟨o, ho, heq⟩ : ∃ o ∈ mid.world.store.orders, (o.id, o.status) = (⟨22⟩, "valid") :=
    List.mem_map.mp (hbefore ▸ List.mem_singleton_self _)
  obtain ⟨o', ho', heq'⟩ : ∃ o ∈ cfg.world.store.orders, (o.id, o.status) = (⟨22⟩, "ready") :=
    List.mem_map.mp (hafter ▸ List.mem_singleton_self _)
  obtain ⟨hid, hstatus⟩ := Prod.mk.inj heq
  obtain ⟨hid', hstatus'⟩ := Prod.mk.inj heq'
  have hsame := (hkept.orders o ho (.inl hstatus)).2 o' ho' (hid'.trans hid.symm)
  rw [hstatus, hstatus'] at hsame
  exact absurd hsame (by decide)

end Ostrich.Acme
