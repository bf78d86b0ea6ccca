import Ostrich.Common.Equiv.Session
import Ostrich.Common.Equiv.SessionStore
import Ostrich.Common.Provider

/-!
# The inactivity timeout under throttled activity

A validation writes the time of the activity only when the stored one is older than the persist
interval, so the stored time lags behind the real one.

* `rule_iff`: a validation never succeeds later than the inactivity timeout after the last activity,
  and it succeeds on time exactly when the start of the timeout is a time that there is;
* `validate_panics`: with the largest timeout it is not.
-/

namespace Ostrich.Common.Session

open Interleave Table Prog

/-! ### Runs of a single session -/

/-- A call of the store or of the clock at a time in nanoseconds; the store answers.  The second
component is the order in which the store lists what it has. -/
def tick (m : ℤ × ℕ) : Choice where
  fault := none
  now := .ofNanos m.1
  nowFor _ := .ofNanos m.1
  pick := m.2

/-- A run of a task by itself. -/
abbrev TaskRun (α : Type) := Solo Call Reply SessionError α Sessions Choice

/-- The readings of the clock, in nanoseconds. -/
def readings (h : History Call Reply) : List ℤ :=
  h.filterMap fun
    | ⟨.now, t⟩ => some (DateTime.toNanos t)
    | _ => none

/-- A success of the task counts as activity of the session. -/
def Task.isActivity : Task → Bool
  | .validateSession _ | .validateSessionById _ | .unlockSession _ => true
  | _ => false

/-- When the session was last active, after a run of a task: at the last reading of the clock if the
task was activity and succeeded. -/
def activityAfter (task : Task) (run : TaskRun Result) (activity : ℤ) : ℤ :=
  match run.result with
  | .ok _ => if task.isActivity then (readings run.history).getLast?.getD activity else activity
  | .error _ => activity

/-- The times follow each other. -/
def Ordered (clock : ℤ) (moments : List (ℤ × ℕ)) : Prop :=
  (clock :: moments.map Prod.fst).Pairwise (· ≤ ·)

/-- The time after them. -/
def clockAfter (clock : ℤ) (moments : List (ℤ × ℕ)) : ℤ :=
  (moments.map Prod.fst).getLast?.getD clock

/-- A session is created in an empty store, and tasks run one after the other: the store, the time
of the last activity, and the time. -/
inductive Lives (config : SessionConfig) (kind : StoreKind) (db : SessionStore.Columns) :
    Sessions → ℤ → ℤ → Prop
  | created {t : ℤ} {userId token : String} {id : Uuid} {ipAddress userAgent : Option String}
      {expiresAt : DateTime} {s : Sessions}
      (hexpires : (DateTime.ofNanos t).addDuration config.absoluteTimeoutSecs = some expiresAt)
      (hstored : Provider.createIn kind db
        { Provider.newSession userId (.ofNanos t) token id expiresAt with ipAddress, userAgent }
        config.maxConcurrentSessions (.empty _) = (.ok (), s)) :
      Lives config kind db s t t
  | ran {s : Sessions} {activity clock : ℤ} {task : Task} {moments : List (ℤ × ℕ)}
      {run : TaskRun Result} (h : Lives config kind db s activity clock)
      (hclock : Ordered clock moments)
      (hrun : (body config task).solo (exec kind) (moments.map tick) s = some run) :
      Lives config kind db run.store (activityAfter task run activity) (clockAfter clock moments)

/-! ### The property -/

/-- A second in nanoseconds. -/
def second : ℤ := 1000000000

/-- The persist interval in seconds. -/
def persistAfter (config : SessionConfig) : ℤ :=
  max (min activityPersistIntervalSecs (config.inactivityTimeoutSecs.tdiv 2)) 1

/-- The task validates sessions. -/
def Task.isValidation : Task → Bool
  | .validateSession _ | .validateSessionById _ => true
  | _ => false

/-- The task is to validate the session. -/
def Task.asksFor (row : Session) : Task → Bool
  | .validateSession token => token = row.token
  | .validateSessionById id => id = row.id
  | _ => false

/-- The validation succeeds. -/
def Succeeds (run : TaskRun Result) : Prop := ∃ result, run.result = .ok result

/-- The session is active and has not expired when the task reads the clock first, and when it reads
it again the last activity is not longer ago than the timeout less the persist interval. -/
def OnTime (config : SessionConfig) (s : Sessions) (activity : ℤ) (task : Task)
    (run : TaskRun Result) : Prop :=
  ∃ row ∈ s.rows, task.asksFor row = true ∧ row.status = .Active ∧
    (∀ t ∈ (readings run.history)[0]?, row.isExpired (.ofNanos t) = false) ∧
    ∀ t ∈ (readings run.history)[1]?,
      t - activity ≤ (config.inactivityTimeoutSecs - persistAfter config) * second

/-- A validation that succeeds is not later than the timeout, and one on time succeeds. -/
def Rule (config : SessionConfig) (s : Sessions) (activity : ℤ) (task : Task)
    (run : TaskRun Result) : Prop :=
  (Succeeds run → ∃ t ∈ (readings run.history)[1]?,
      t - activity ≤ config.inactivityTimeoutSecs * second) ∧
    (OnTime config s activity task run → Succeeds run)

/-- The start of the timeout is a time that there is. -/
def Representable (config : SessionConfig) (run : TaskRun Result) : Prop :=
  ∀ t ∈ (readings run.history)[1]?,
    (DateTime.ofNanos t).addDuration (-config.inactivityTimeoutSecs) ≠ none

/-! ### What a task does -/

section

variable {config : SessionConfig} {kind : StoreKind} {α β : Type} {s : Sessions} {clock : ℤ}
  {moments : List (ℤ × ℕ)}

theorem ordered_cons {m : ℤ × ℕ} (h : Ordered clock (m :: moments)) :
    clock ≤ m.1 ∧ Ordered m.1 moments := by
  obtain ⟨hle, hrest⟩ := List.pairwise_cons.mp h
  exact ⟨hle m.1 (List.mem_cons_self ..), hrest⟩

theorem le_clockAfter (h : Ordered clock moments) : clock ≤ clockAfter clock moments := by
  unfold clockAfter
  cases hlast : (moments.map Prod.fst).getLast? with
  | none => exact le_refl clock
  | some last => exact (List.pairwise_cons.mp h).1 last (List.mem_of_getLast? hlast)

theorem clockAfter_cons (m : ℤ × ℕ) : clockAfter clock (m :: moments) = clockAfter m.1 moments := by
  unfold clockAfter
  rw [List.map_cons, List.getLast?_cons]
  rfl

/-- A call and then the rest. -/
theorem solo_await {e : Call} {f : Reply e → SessionM β} {run : TaskRun β}
    (h : (await e >>= f).solo (exec kind) (moments.map tick) s = some run) :
    ∃ m moments' rest, moments = m :: moments' ∧
      (f (exec kind e (tick m) s).1).solo (exec kind) (moments'.map tick)
        (exec kind e (tick m) s).2 = some rest ∧
      run = { rest with history := ⟨e, (exec kind e (tick m) s).1⟩ :: rest.history } := by
  obtain ⟨c, cs, rest, hcs, hrest, rfl⟩ := solo_perform h
  cases moments with
  | nil => cases hcs
  | cons m moments =>
    obtain ⟨rfl, rfl⟩ := List.cons.inj hcs
    exact ⟨m, moments, rest, rfl, hrest, rfl⟩

/-- A reading of the clock and then the rest. -/
theorem solo_now {f : DateTime → SessionM β} {run : TaskRun β}
    (h : (await .now >>= f).solo (exec kind) (moments.map tick) s = some run) :
    ∃ m moments' rest, moments = m :: moments' ∧
      (f (.ofNanos m.1)).solo (exec kind) (moments'.map tick) s = some rest ∧
      run.result = rest.result ∧ run.store = rest.store ∧
      readings run.history = m.1 :: readings rest.history := by
  obtain ⟨m, moments', rest, rfl, hrest, rfl⟩ := solo_await h
  refine ⟨m, moments', rest, rfl, hrest, rfl, rfl, ?_⟩
  show (DateTime.ofNanos m.1).toNanos :: readings rest.history = _
  rw [DateTime.toNanos_ofNanos]

/-- An update and then the rest. -/
theorem solo_update {session : Session} {f : Unit → SessionM β} {run : TaskRun β}
    (h : (update session >>= f).solo (exec kind) (moments.map tick) s = some run) :
    ∃ m moments' rest, moments = m :: moments' ∧
      (f ()).solo (exec kind) (moments'.map tick) (Sessions.update s kind session) = some rest ∧
      run.result = rest.result ∧ run.store = rest.store ∧
      readings run.history = readings rest.history := by
  unfold update at h
  rw [bind_assoc] at h
  obtain ⟨m, moments', rest, rfl, hrest, rfl⟩ := solo_await h
  exact ⟨m, moments', rest, rfl, hrest, rfl, rfl, rfl⟩

/-- A last update. -/
theorem solo_update_last {session : Session} {run : TaskRun Unit}
    (h : (update session).solo (exec kind) (moments.map tick) s = some run) :
    ∃ m moments', moments = m :: moments' ∧ run.result = .ok () ∧
      run.store = Sessions.update s kind session ∧ readings run.history = [] := by
  unfold update at h
  obtain ⟨m, moments', rest, rfl, hrest, rfl⟩ := solo_await h
  obtain rfl := Option.some.inj hrest
  exact ⟨m, moments', rfl, rfl, rfl, rfl⟩

/-- The session that was looked up and then the rest. -/
theorem solo_found {reply : Except SessionError (Option Session)} {f : Session → SessionM β}
    {cs : List Choice} {run : TaskRun β}
    (h : (found reply >>= f).solo (exec kind) cs s = some run) :
    (∃ e, run.result = .error e ∧ run.store = s ∧ ∀ row, reply ≠ .ok (some row)) ∨
      ∃ row, reply = .ok (some row) ∧ (f row).solo (exec kind) cs s = some run := by
  unfold found at h
  cases reply with
  | error e =>
    obtain rfl := Option.some.inj h
    exact .inl ⟨e, rfl, rfl, fun _ h => by cases h⟩
  | ok found =>
    cases found with
    | none =>
      obtain rfl := Option.some.inj h
      exact .inl ⟨_, rfl, rfl, fun _ h => by cases h⟩
    | some row => exact .inr ⟨row, rfl, h⟩

end

/-! ### Validation -/

/-- The session is refused after a look at its expiry and status, or after the look at its last
activity. -/
inductive Refused (config : SessionConfig) (row : Session) : List ℤ → Prop
  | first {t : ℤ} (h : row.isExpired (.ofNanos t) = true ∨ row.status ≠ .Active) :
      Refused config row [t]
  | second {t₁ t₂ : ℤ} (h : ∀ cutoff,
      (DateTime.ofNanos t₂).addDuration (-config.inactivityTimeoutSecs) = some cutoff →
        row.lastActivity < cutoff) : Refused config row [t₁, t₂]

/-- The session is accepted: the activity is written unless the stored one is recent. -/
inductive Accepted (config : SessionConfig) (kind : StoreKind) (row : Session) (s : Sessions) :
    Sessions → List ℤ → Prop
  | kept {t₁ t₂ t₃ : ℤ} (hle : t₂ ≤ t₃)
      (hidle : row.idleTime (.ofNanos t₃) < persistAfter config) : Accepted config kind row s s
        [t₁, t₂, t₃]
  | touched {t₁ t₂ t₃ t₄ : ℤ} (hle : t₂ ≤ t₄) :
      Accepted config kind row s (Sessions.update s kind (row.touch (.ofNanos t₄))) [t₁, t₂, t₃, t₄]

/-- What the evaluation of a session comes to. -/
inductive Evaluation (config : SessionConfig) (kind : StoreKind) (row : Session) (s : Sessions)
    (run : TaskRun Session) : Prop
  | refused {e : SessionError} (hresult : run.result = .error e)
      (hstore : run.store = s ∨ ∃ status, status ≠ .Active ∧
        run.store = Sessions.update s kind { row with status })
      (hwhy : Refused config row (readings run.history))
  | accepted {session : Session} {t : ℤ} {cutoff : DateTime} (hresult : run.result = .ok session)
      (hactive : row.status = .Active)
      (hnow : (readings run.history)[1]? = some t)
      (hcutoff : (DateTime.ofNanos t).addDuration (-config.inactivityTimeoutSecs) = some cutoff)
      (hrecent : ¬row.lastActivity < cutoff)
      (hstore : Accepted config kind row s run.store (readings run.history))

section

variable {config : SessionConfig} {kind : StoreKind} {s : Sessions} {clock : ℤ}
  {moments : List (ℤ × ℕ)} {row : Session} {α : Type}

/-- The readings of a run come between the times before and after it. -/
def Between (clock : ℤ) (moments : List (ℤ × ℕ)) (times : List ℤ) : Prop :=
  ∀ t ∈ times, clock ≤ t ∧ t ≤ clockAfter clock moments

theorem evaluation_of_active {first : ℤ} {run : TaskRun Session}
    (hordered : Ordered clock moments) (hactive : row.status = .Active)
    (h : (evaluateActive config row).solo (exec kind) (moments.map tick) s = some run)
    {whole : TaskRun Session} (hresult : whole.result = run.result)
    (hstore : whole.store = run.store)
    (hreadings : readings whole.history = first :: readings run.history) :
    Evaluation config kind row s whole ∧ Between clock moments (readings run.history) := by
  unfold evaluateActive at h
  obtain ⟨m₂, moments₂, run₂, rfl, h₂, hresult₂, hstore₂, hreadings₂⟩ := solo_now h
  obtain ⟨hle₂, hordered₂⟩ := ordered_cons hordered
  have hend₂ := le_clockAfter hordered₂
  rw [hresult₂] at hresult
  rw [hstore₂] at hstore
  rw [hreadings₂] at hreadings
  unfold Between
  rw [hreadings₂, clockAfter_cons]
  cases hcutoff : (DateTime.ofNanos m₂.1).addDuration (-config.inactivityTimeoutSecs) with
  | none =>
    rw [hcutoff] at h₂
    obtain rfl := Option.some.inj h₂
    refine ⟨.refused hresult (.inl hstore) ?_, fun t ht => ?_⟩
    · rw [hreadings]
      exact .second fun cutoff hsome => by rw [hcutoff] at hsome; cases hsome
    · obtain rfl := List.mem_singleton.mp ht
      exact ⟨hle₂, hend₂⟩
  | some cutoff =>
    rw [hcutoff] at h₂
    dsimp only at h₂
    by_cases hidle : row.lastActivity < cutoff
    · rw [if_pos hidle] at h₂
      have hwhy : Refused config row [first, m₂.1] :=
        .second fun cutoff' hsome => by rw [hcutoff] at hsome; cases hsome; exact hidle
      have hone : ∀ t ∈ [m₂.1], clock ≤ t ∧ t ≤ clockAfter m₂.1 moments₂ := fun t ht => by
        obtain rfl := List.mem_singleton.mp ht
        exact ⟨hle₂, hend₂⟩
      split_ifs at h₂ with hlock
      · obtain ⟨m₃, moments₃, run₃, rfl, h₃, hresult₃, hstore₃, hreadings₃⟩ := solo_update h₂
        obtain rfl := Option.some.inj h₃
        refine ⟨.refused (hresult.trans hresult₃)
          (.inr ⟨.Locked, by decide, hstore.trans hstore₃⟩) ?_, ?_⟩
        · rw [hreadings, hreadings₃]
          exact hwhy
        · rw [hreadings₃]
          exact hone
      · obtain ⟨m₃, moments₃, run₃, rfl, h₃, hresult₃, hstore₃, hreadings₃⟩ := solo_update h₂
        obtain rfl := Option.some.inj h₃
        refine ⟨.refused (hresult.trans hresult₃)
          (.inr ⟨.Expired, by decide, hstore.trans hstore₃⟩) ?_, ?_⟩
        · rw [hreadings, hreadings₃]
          exact hwhy
        · rw [hreadings₃]
          exact hone
    · rw [if_neg hidle] at h₂
      obtain ⟨m₃, moments₃, run₃, rfl, h₃, hresult₃, hstore₃, hreadings₃⟩ := solo_now h₂
      obtain ⟨hle₃, hordered₃⟩ := ordered_cons hordered₂
      have hend₃ := le_clockAfter hordered₃
      rw [hresult₃] at hresult
      rw [hstore₃] at hstore
      rw [hreadings₃] at hreadings ⊢
      rw [clockAfter_cons] at hend₂ ⊢
      split_ifs at h₃ with hpersist
      · obtain ⟨m₄, moments₄, run₄, rfl, h₄, hresult₄, hstore₄, hreadings₄⟩ := solo_now h₃
        obtain ⟨hle₄, hordered₄⟩ := ordered_cons hordered₃
        have hend₄ := le_clockAfter hordered₄
        obtain ⟨m₅, moments₅, run₅, rfl, h₅, hresult₅, hstore₅, hreadings₅⟩ := solo_update h₄
        obtain rfl := Option.some.inj h₅
        rw [hresult₄, hresult₅] at hresult
        rw [hstore₄, hstore₅] at hstore
        rw [hreadings₄, hreadings₅] at hreadings ⊢
        rw [clockAfter_cons] at hend₃ ⊢
        refine ⟨.accepted hresult hactive (by rw [hreadings]; rfl) hcutoff hidle ?_, fun t ht => ?_⟩
        · rw [hstore, hreadings]
          exact .touched (by omega)
        · have hmem : t = m₂.1 ∨ t = m₃.1 ∨ t = m₄.1 := by simpa [readings] using ht
          omega
      · obtain rfl := Option.some.inj h₃
        refine ⟨.accepted hresult hactive (by rw [hreadings]; rfl) hcutoff hidle ?_, fun t ht => ?_⟩
        · rw [hstore, hreadings]
          exact .kept hle₃ (not_le.mp hpersist)
        · have hmem : t = m₂.1 ∨ t = m₃.1 := by simpa [readings] using ht
          omega

theorem evaluation_of_solo {run : TaskRun Session} (hordered : Ordered clock moments)
    (h : (evaluate config row).solo (exec kind) (moments.map tick) s = some run) :
    Evaluation config kind row s run ∧ Between clock moments (readings run.history) := by
  unfold evaluate at h
  obtain ⟨m, moments', run₁, rfl, h₁, hresult₁, hstore₁, hreadings₁⟩ := solo_now h
  obtain ⟨hle, hordered₁⟩ := ordered_cons hordered
  have hend := le_clockAfter hordered₁
  have hone : Between clock (m :: moments') [m.1] := fun t ht => by
    obtain rfl := List.mem_singleton.mp ht
    rw [clockAfter_cons]
    exact ⟨hle, hend⟩
  split_ifs at h₁ with hexpired hstatus
  · obtain ⟨m₂, moments₂, run₂, rfl, h₂, hresult₂, hstore₂, hreadings₂⟩ := solo_update h₁
    obtain rfl := Option.some.inj h₂
    rw [hreadings₁, hreadings₂]
    refine ⟨.refused (hresult₁.trans hresult₂)
      (.inr ⟨.Expired, by decide, hstore₁.trans hstore₂⟩) ?_, hone⟩
    rw [hreadings₁, hreadings₂]
    exact .first (.inl hexpired)
  · obtain rfl := Option.some.inj h₁
    rw [hreadings₁]
    refine ⟨.refused hresult₁ (.inl hstore₁) ?_, hone⟩
    rw [hreadings₁]
    exact .first (.inl hexpired)
  · by_cases hactive : row.status = .Active
    · rw [hactive] at h₁
      obtain ⟨hevaluation, hbetween⟩ :=
        evaluation_of_active hordered₁ hactive h₁ hresult₁ hstore₁ hreadings₁
      refine ⟨hevaluation, fun t ht => ?_⟩
      rw [clockAfter_cons]
      rw [hreadings₁] at ht
      rcases List.mem_cons.mp ht with rfl | ht
      · exact ⟨hle, hend⟩
      · have hlater := hbetween t ht
        omega
    · have hrefused : ∃ e, run₁ = ⟨.error e, [], s, moments'.map tick⟩ := by
        cases hs : row.status with
        | Active => exact absurd hs hactive
        | Locked | Expired | Terminated | AdminTerminated =>
          rw [hs] at h₁
          exact ⟨_, (Option.some.inj h₁).symm⟩
      obtain ⟨e, rfl⟩ := hrefused
      rw [hreadings₁]
      refine ⟨.refused hresult₁ (.inl hstore₁) ?_, hone⟩
      rw [hreadings₁]
      exact .first (.inr hactive)

theorem Between.cons {m : ℤ × ℕ} {times : List ℤ} (h : Between m.1 moments times)
    (hordered : Ordered clock (m :: moments)) : Between clock (m :: moments) times := by
  intro t ht
  rw [clockAfter_cons]
  exact ⟨(ordered_cons hordered).1.trans (h t ht).1, (h t ht).2⟩

/-- What a lookup found is evaluated. -/
theorem solo_lookup {e : Call} {reply : Reply e → Except SessionError (Option Session)}
    {f : Session → SessionM α} {run : TaskRun α} (hordered : Ordered clock moments)
    (hstore : ∀ m, (exec kind e (tick m) s).2 = s)
    (hreadings : ∀ r h, readings (⟨e, r⟩ :: h) = readings h)
    (h : (await e >>= fun r => found (reply r) >>= f).solo (exec kind) (moments.map tick) s
      = some run) :
    ∃ m moments', moments = m :: moments' ∧
      ((∃ err, run.result = .error err) ∧ run.store = s ∧
          (∀ row, reply (exec kind e (tick m) s).1 ≠ .ok (some row)) ∨
        ∃ row rest, reply (exec kind e (tick m) s).1 = .ok (some row) ∧
          (f row).solo (exec kind) (moments'.map tick) s = some rest ∧
          run.result = rest.result ∧ run.store = rest.store ∧
          readings run.history = readings rest.history) := by
  obtain ⟨m, moments', rest, rfl, hrest, rfl⟩ := solo_await h
  refine ⟨m, moments', rfl, ?_⟩
  rw [hstore] at hrest
  rcases solo_found hrest with ⟨err, hresult, hsame, hnone⟩ | ⟨row, hrow, hrun⟩
  · exact .inl ⟨⟨err, hresult⟩, hsame, hnone⟩
  · exact .inr ⟨row, rest, hrow, hrun, rfl, rfl, hreadings _ _⟩

theorem token_of_getByToken {pick : ℕ} {token : String}
    (h : Sessions.getByToken s pick token = some row) : row.token = token :=
  of_decide_eq_true (List.mem_filter.mp (List.mem_of_getElem? h)).2

theorem getByToken_of_mem (pick : ℕ) (hrow : row ∈ s.rows) :
    ∃ other, Sessions.getByToken s pick row.token = some other := by
  have hmem : row ∈ s.rows.filter (·.token = row.token) :=
    List.mem_filter.mpr ⟨hrow, decide_eq_true rfl⟩
  have hlt := Nat.mod_lt pick (List.length_pos_of_mem hmem)
  exact ⟨_, List.getElem?_eq_getElem hlt⟩

/-- A validation finds no session that it asks for, or evaluates one. -/
theorem validation_of_solo {task : Task} {run : TaskRun Result}
    (hvalidation : task.isValidation = true)
    (hordered : Ordered clock moments)
    (h : (body config task).solo (exec kind) (moments.map tick) s = some run) :
    ((∃ e, run.result = .error e) ∧ run.store = s ∧
        ∀ row ∈ s.rows, task.asksFor row = false) ∨
      ∃ row ∈ s.rows, task.asksFor row = true ∧ ∃ inner : TaskRun Session,
        Evaluation config kind row s inner ∧ Between clock moments (readings run.history) ∧
          run.result = inner.result.map .session ∧ run.store = inner.store ∧
          readings run.history = readings inner.history := by
  have hfinds {e : Call} {reply : Reply e → Except SessionError (Option Session)}
      (hstore : ∀ m, (exec kind e (tick m) s).2 = s)
      (hreadings : ∀ r h, readings (⟨e, r⟩ :: h) = readings h)
      (hsome : ∀ m row, reply (exec kind e (tick m) s).1 = .ok (some row) →
        row ∈ s.rows ∧ task.asksFor row = true)
      (hnone : ∀ m, (∀ row, reply (exec kind e (tick m) s).1 ≠ .ok (some row)) →
        ∀ row ∈ s.rows, task.asksFor row = false)
      (h : (Result.session <$> (await e >>= fun r => found (reply r) >>= evaluate config)).solo
        (exec kind) (moments.map tick) s = some run) :
      ((∃ e, run.result = .error e) ∧ run.store = s ∧
          ∀ row ∈ s.rows, task.asksFor row = false) ∨
        ∃ row ∈ s.rows, task.asksFor row = true ∧ ∃ inner : TaskRun Session,
          Evaluation config kind row s inner ∧ Between clock moments (readings run.history) ∧
            run.result = inner.result.map .session ∧ run.store = inner.store ∧
            readings run.history = readings inner.history := by
    obtain ⟨first, hfirst, hresult, hhistory, hstores, -⟩ := solo_map Result.session h
    obtain ⟨m, moments', rfl, hcases⟩ := solo_lookup hordered hstore hreadings hfirst
    rcases hcases with ⟨⟨err, herr⟩, hsame, hmissing⟩ |
      ⟨row, rest, hrow, hrest, hresult', hstore', hreadings'⟩
    · exact .inl ⟨⟨err, by rw [hresult, herr]; rfl⟩, hstores.trans hsame, hnone m hmissing⟩
    · obtain ⟨hmem, hasks⟩ := hsome m row hrow
      obtain ⟨hevaluation, hbetween⟩ := evaluation_of_solo (ordered_cons hordered).2 hrest
      refine .inr ⟨row, hmem, hasks, rest, hevaluation, ?_, ?_, hstores.trans hstore', ?_⟩
      · rw [hhistory, hreadings']
        exact hbetween.cons hordered
      · rw [hresult, hresult']
      · rw [hhistory, hreadings']
  cases task with
  | validateSession token =>
    refine @hfinds (.getByToken token) (fun r => r) (fun _ => rfl) (fun _ _ => rfl) ?_ ?_ h
    · intro m row hrow
      have hget : Sessions.getByToken s m.2 token = some row := Except.ok.inj hrow
      exact ⟨mem_of_getByToken hget, decide_eq_true (token_of_getByToken hget).symm⟩
    · intro m hmissing row hrow
      refine decide_eq_false fun htoken => ?_
      obtain ⟨other, hother⟩ := getByToken_of_mem m.2 hrow
      rw [← htoken] at hother
      exact hmissing other (congrArg Except.ok hother)
  | validateSessionById id =>
    refine @hfinds (.getById id) (fun r => r) (fun _ => rfl) (fun _ _ => rfl) ?_ ?_ h
    · intro m row hrow
      obtain ⟨hmem, hid⟩ := Keyed.mem_of_get (Except.ok.inj hrow)
      exact ⟨hmem, decide_eq_true hid.symm⟩
    · intro m hmissing row hrow
      refine decide_eq_false fun hid => ?_
      have hget : Sessions.getById s id = some row := Keyed.get_eq_some.mpr ⟨hrow, hid.symm⟩
      exact hmissing row (congrArg Except.ok hget)
  | unlockSession id => cases hvalidation
  | terminateSession id => cases hvalidation
  | adminTerminateSession id adminId => cases hvalidation
  | terminateUserSessions userId adminId => cases hvalidation
  | cleanupExpired => cases hvalidation

end

/-! ### The stored time of the last activity -/

/-- The stored time lags behind the last activity by less than the persist interval. -/
def Lags (config : SessionConfig) (activity : ℤ) (row : Session) : Prop :=
  row.status = .Active → ∃ a : ℤ, row.lastActivity = .ofNanos a ∧ a ≤ activity ∧
    activity < a + persistAfter config * second

/-- The store has the one session, and its stored time lags. -/
structure Sound (config : SessionConfig) (id : Uuid) (s : Sessions)
    (activity clock : ℤ) : Prop where
  one : ∀ row ∈ s.rows, row.id = id
  lags : ∀ row ∈ s.rows, Lags config activity row
  past : activity ≤ clock

section

variable {config : SessionConfig} {kind : StoreKind} {id : Uuid} {s : Sessions}
  {activity clock : ℤ} {moments : List (ℤ × ℕ)} {row : Session}

theorem Sound.eq (h : Sound config id s activity clock) {row row' : Session} (hrow : row ∈ s.rows)
    (hrow' : row' ∈ s.rows) : row = row' :=
  s.eq_of_key hrow hrow' ((h.one row hrow).trans (h.one row' hrow').symm)

theorem Sound.later (h : Sound config id s activity clock) (hordered : Ordered clock moments) :
    Sound config id s activity (clockAfter clock moments) :=
  ⟨h.one, h.lags, h.past.trans (le_clockAfter hordered)⟩

theorem one_le_persistAfter (config : SessionConfig) : 1 ≤ persistAfter config :=
  le_max_right _ _

/-- The rows after an update: a terminated one stays, any other is replaced. -/
theorem mem_update {new row' : Session} (h : row' ∈ (Sessions.update s kind new).rows) :
    row' ∈ s.rows ∧ (row'.id = new.id → row'.status.terminal = true) ∨ row' = new ∨
      ∃ row ∈ s.rows, row.id = new.id ∧ row' = Sessions.written new row := by
  have hput (h : row' ∈ (s.put new).rows) :
      row' ∈ s.rows ∧ (row'.id = new.id → row'.status.terminal = true) ∨ row' = new := by
    rcases List.mem_append.mp h with h | h
    · obtain ⟨hmem, hne⟩ := List.mem_filter.mp h
      exact .inl ⟨hmem, fun hid => absurd hid (of_decide_eq_true hne)⟩
    · exact .inr (List.mem_singleton.mp h)
  cases kind with
  | inMemory =>
    simp only [Sessions.update] at h
    split at h
    · rename_i existing hexisting
      obtain ⟨hmem, hid⟩ := Keyed.mem_of_get hexisting
      split_ifs at h with hguard
      · refine .inl ⟨h, fun hid' => ?_⟩
        rw [s.eq_of_key h hmem (hid'.trans hid.symm)]
        exact (Bool.and_eq_true_iff.mp hguard).1
      · rcases hput h with h | h
        · exact .inl h
        · exact .inr (.inl h)
    · rcases hput h with h | h
      · exact .inl h
      · exact .inr (.inl h)
  | database =>
    obtain ⟨old, hold, rfl⟩ := mem_updateWhere.mp h
    split_ifs with hmatch
    · rw [Bool.and_eq_true, decide_eq_true_eq] at hmatch
      exact .inr (.inr ⟨old, hold, hmatch.1, rfl⟩)
    · refine .inl ⟨hold, fun hid => ?_⟩
      by_contra hterminal
      refine hmatch ?_
      rw [Bool.eq_false_iff.mpr hterminal, decide_eq_true hid]
      rfl

/-- A session that is written lags if what is written lags, also in whole microseconds. -/
theorem Sound.write (h : Sound config id s activity clock) {activity' clock' : ℤ} {new : Session}
    (hid : new.id = id) (hpast : activity' ≤ clock')
    (hnew : new.status = .Active → new.lastActivity = .ofNanos activity') :
    Sound config id (Sessions.update s kind new) activity' clock' := by
  have hpersist := one_le_persistAfter config
  refine ⟨fun row' hrow' => ?_, fun row' hrow' hactive => ?_, hpast⟩
  · rcases mem_update hrow' with ⟨hold, -⟩ | rfl | ⟨row, hrow, -, rfl⟩
    · exact h.one row' hold
    · exact hid
    · exact h.one row hrow
  · rcases mem_update hrow' with ⟨hold, hterminal⟩ | rfl | ⟨row, hrow, -, rfl⟩
    · have hterm := hterminal ((h.one row' hold).trans hid.symm)
      rw [hactive] at hterm
      cases hterm
    · refine ⟨activity', hnew hactive, le_refl _, ?_⟩
      unfold second
      omega
    · refine ⟨activity' / 1000 * 1000, ?_, by omega, by unfold second; omega⟩
      show DateTime.ofMicros new.lastActivity.toMicros = _
      rw [hnew hactive, DateTime.ofMicros_toMicros_ofNanos]

/-- A session that is not active is written. -/
theorem Sound.quiet (h : Sound config id s activity clock) {new : Session} (hid : new.id = id)
    (hnew : new.status ≠ .Active) :
    Sound config id (Sessions.update s kind new) activity clock :=
  h.write hid h.past fun hactive => absurd hactive hnew

/-- A validation keeps the invariant, with its time as the last activity if it succeeds. -/
theorem Sound.evaluation (h : Sound config id s activity clock) {inner : TaskRun Session}
    (hrow : row ∈ s.rows) (hordered : Ordered clock moments)
    (hbetween : Between clock moments (readings inner.history))
    (hevaluation : Evaluation config kind row s inner) :
    Sound config id inner.store
      (match inner.result with
        | .ok _ => (readings inner.history).getLast?.getD activity
        | .error _ => activity) (clockAfter clock moments) := by
  have hlater := h.later hordered
  cases hevaluation with
  | refused hresult hstore hwhy =>
    rw [hresult]
    rcases hstore with hsame | ⟨status, hstatus, hupdate⟩
    · rw [hsame]
      exact hlater
    · rw [hupdate]
      exact hlater.quiet (h.one row hrow) hstatus
  | accepted hresult hactive hnow hcutoff hrecent hstore =>
    rw [hresult]
    dsimp only
    have hpast := h.past
    generalize inner.store = s' at hstore
    generalize readings inner.history = times at hstore hbetween
    cases hstore with
    | @kept t₁ t₂ t₃ hle hidle =>
      have ht₃ := hbetween t₃ (by simp)
      refine ⟨h.one, fun row' hrow' _ => ?_, ht₃.2⟩
      rw [h.eq hrow' hrow]
      obtain ⟨a, ha, hale, -⟩ := h.lags row hrow hactive
      refine ⟨a, ha, hale.trans (hpast.trans ht₃.1), ?_⟩
      show t₃ < a + persistAfter config * second
      have hnonneg : 0 ≤ t₃ - a := by omega
      unfold Session.idleTime at hidle
      rw [ha, DateTime.secondsSince_ofNanos, Int.tdiv_eq_ediv_of_nonneg hnonneg] at hidle
      unfold second
      omega
    | @touched t₁ t₂ t₃ t₄ hle =>
      exact h.write (h.one row hrow) (hbetween t₄ (by simp)).2 fun _ => rfl

/-! ### The other tasks -/

theorem Sound.endAll (h : Sound config id s activity clock) {adminId : Option String}
    {sessions : List Session} (hids : ∀ session ∈ sessions, session.id = id) {n : ℕ}
    {run : TaskRun ℕ}
    (hrun : (terminateAll adminId sessions n).solo (exec kind) (moments.map tick) s = some run) :
    Sound config id run.store activity clock := by
  induction sessions generalizing n moments s run with
  | nil =>
    obtain rfl := Option.some.inj hrun
    exact h
  | cons session rest ih =>
    have hrest := fun other hother => hids other (List.mem_cons_of_mem _ hother)
    unfold terminateAll at hrun
    by_cases hlive : session.status = .Active ∨ session.status = .Locked
    · rw [if_pos hlive] at hrun
      obtain ⟨m, moments', run', rfl, hrun', -, hstore, -⟩ := solo_update hrun
      rw [hstore]
      refine ih ?_ hrest hrun'
      have hid := hids session (List.mem_cons_self ..)
      split_ifs
      · exact h.quiet hid (by simp [Session.adminTerminate])
      · exact h.quiet hid (by simp [Session.terminate])
    · rw [if_neg hlive] at hrun
      exact ih h hrest hrun

/-- A termination of the session that was looked up. -/
theorem Sound.endOne (h : Sound config id s activity clock) {sessionId : Uuid}
    (change : Session → Session) {event : Session → SessionAuditEvent} {run : TaskRun Unit}
    (hordered : Ordered clock moments)
    (hchange : ∀ row, (change row).id = row.id ∧ (change row).status ≠ .Active)
    (hrun : (await (.getById sessionId) >>= fun r => found r >>= fun session =>
      update (change session) >>= fun _ => await (.audit (event session))).solo (exec kind)
        (moments.map tick) s = some run) :
    Sound config id run.store activity clock := by
  obtain ⟨m, moments', rfl, hcases⟩ := @solo_lookup kind s clock moments Unit (.getById sessionId)
    (fun r => r) _ run hordered (fun _ => rfl) (fun _ _ => rfl) hrun
  rcases hcases with ⟨-, hsame, -⟩ | ⟨row, rest, hrow, hrest, -, hstore, -⟩
  · rw [hsame]
    exact h
  · obtain ⟨m₂, moments₂, run₂, rfl, hrun₂, -, hstore₂, -⟩ := solo_update hrest
    have hmem := (Keyed.mem_of_get (Except.ok.inj hrow)).1
    have haudit : run₂.store = Sessions.update s kind (change row) := by
      cases moments₂ with
      | nil => cases hrun₂
      | cons m₃ moments₃ =>
        obtain rfl := Option.some.inj hrun₂
        rfl
    rw [hstore, hstore₂, haudit]
    exact h.quiet ((hchange row).1.trans (h.one row hmem)) (hchange row).2

/-- Locking idle sessions and reaping leave at most the session. -/
theorem Sound.cleanup (h : Sound config id s activity clock) {run : TaskRun ℕ}
    (hrun : (cleanupExpired config).solo (exec kind) (moments.map tick) s = some run) :
    Sound config id run.store activity clock := by
  have hlock (idleBefore : DateTime) :
      Sound config id (Sessions.lockIdle s kind idleBefore) activity clock := by
    refine ⟨fun row hrow => ?_, fun row hrow hactive => ?_, h.past⟩
    · obtain ⟨old, hold, rfl⟩ := mem_updateWhere.mp hrow
      split_ifs
      · exact h.one old hold
      · exact h.one old hold
    · obtain ⟨old, hold, rfl⟩ := mem_updateWhere.mp hrow
      split_ifs at hactive ⊢
      · cases hactive
      · exact h.lags old hold hactive
  have hreap {s' : Sessions} {moments' : List (ℤ × ℕ)} {run' : TaskRun ℕ}
      (h' : Sound config id s' activity clock)
      (hrun' : (await .deleteExpired >>= fun r => Prog.ofExcept r).solo (exec kind)
        (moments'.map tick) s' = some run') : Sound config id run'.store activity clock := by
    obtain ⟨m, moments'', rest, rfl, hrest, rfl⟩ := solo_await hrun'
    have hstore : rest.store = Sessions.deleteExpired s' kind (.ofNanos m.1)
        fun _ => .ofNanos m.1 := by
      obtain rfl := Option.some.inj hrest
      rfl
    have hsub : ∀ row ∈ rest.store.rows, row ∈ s'.rows := by
      rw [hstore]
      intro row hrow
      cases kind with
      | inMemory => exact (List.mem_filter.mp hrow).1
      | database => exact (List.mem_filter.mp hrow).1
    exact ⟨fun row hrow => h'.one row (hsub row hrow), fun row hrow => h'.lags row (hsub row hrow),
      h'.past⟩
  unfold cleanupExpired lockIdleSessions at hrun
  split_ifs at hrun
  · rw [bind_assoc] at hrun
    obtain ⟨m, moments', rest, rfl, hrest, -, hstore, -⟩ := solo_now hrun
    rw [hstore]
    cases hcutoff : (DateTime.ofNanos m.1).addDuration (-config.inactivityTimeoutSecs) with
    | none =>
      rw [hcutoff] at hrest
      obtain rfl := Option.some.inj hrest
      exact h
    | some idleBefore =>
      rw [hcutoff] at hrest
      dsimp only at hrest
      rw [bind_assoc] at hrest
      obtain ⟨m₂, moments₂, rest₂, rfl, hrest₂, rfl⟩ := solo_await hrest
      have hreaped : Sound config id rest₂.store activity clock := hreap (hlock idleBefore) hrest₂
      exact hreaped
  · exact hreap h hrun

/-- A task keeps the invariant. -/
theorem Sound.ran (h : Sound config id s activity clock) {task : Task} {run : TaskRun Result}
    (hordered : Ordered clock moments)
    (hrun : (body config task).solo (exec kind) (moments.map tick) s = some run) :
    Sound config id run.store (activityAfter task run activity) (clockAfter clock moments) := by
  have hinactive (htask : task.isActivity = false) : activityAfter task run activity
    = activity := by
    unfold activityAfter
    rw [htask]
    split <;> rfl
  have hvalidation (htask : task.isValidation = true) (hactivity : task.isActivity = true) :
      Sound config id run.store (activityAfter task run activity) (clockAfter clock moments) := by
    unfold activityAfter
    rw [hactivity]
    rcases validation_of_solo htask hordered hrun with ⟨⟨e, hresult⟩, hsame, -⟩ |
      ⟨row, hrow, -, inner, hevaluation, hbetween, hresult, hstore, hreadings⟩
    · rw [hresult, hsame]
      exact h.later hordered
    · rw [hreadings] at hbetween
      have hevaluated := h.evaluation hrow hordered hbetween hevaluation
      rw [hstore, hresult, hreadings]
      cases hinner : inner.result with
      | ok session =>
        rw [hinner] at hevaluated
        exact hevaluated
      | error e =>
        rw [hinner] at hevaluated
        exact hevaluated
  cases task with
  | validateSession token => exact hvalidation rfl rfl
  | validateSessionById sessionId => exact hvalidation rfl rfl
  | unlockSession sessionId =>
    obtain ⟨first, hfirst, hresult, hhistory, hstore, -⟩ := solo_map (fun _ => Result.done) hrun
    obtain ⟨m, moments', rfl, hcases⟩ := @solo_lookup kind s clock moments Unit
      (.getById sessionId) (fun r => r) _ first hordered (fun _ => rfl) (fun _ _ => rfl) hfirst
    unfold activityAfter
    rcases hcases with ⟨⟨err, herr⟩, hsame, -⟩ | ⟨row, rest, hrow, hrest, hresult', hstore', hread⟩
    · rw [hresult, herr, hstore, hsame]
      exact h.later hordered
    · have hmem := (Keyed.mem_of_get (Except.ok.inj hrow)).1
      rw [hresult, hresult', hhistory, hread, hstore, hstore']
      by_cases hlocked : row.status = .Locked
      · rw [if_neg (not_not_intro hlocked)] at hrest
        obtain ⟨m₂, moments₂, rest₂, rfl, hrest₂, hresult₂, hstore₂, hread₂⟩ := solo_now hrest
        obtain ⟨m₃, moments₃, rfl, hresult₃, hstore₃, hread₃⟩ := solo_update_last hrest₂
        obtain ⟨-, hordered₁⟩ := ordered_cons hordered
        obtain ⟨-, hordered₂⟩ := ordered_cons hordered₁
        rw [hresult₂, hresult₃, hread₂, hread₃, hstore₂, hstore₃, clockAfter_cons, clockAfter_cons]
        have hunlocked : row.unlock (.ofNanos m₂.1)
            = { row with status := .Active, lastActivity := .ofNanos m₂.1 } := if_pos hlocked
        rw [hunlocked]
        exact h.write (h.one row hmem) (le_clockAfter hordered₂) fun _ => rfl
      · rw [if_pos hlocked] at hrest
        obtain rfl := Option.some.inj hrest
        exact h.later hordered
  | terminateSession sessionId =>
    obtain ⟨first, hfirst, -, -, hstore, -⟩ := solo_map (fun _ => Result.done) hrun
    rw [hinactive rfl, hstore]
    exact (h.endOne Session.terminate hordered (fun row => ⟨rfl, by
      simp [Session.terminate]⟩) hfirst).later hordered
  | adminTerminateSession sessionId adminId =>
    obtain ⟨first, hfirst, -, -, hstore, -⟩ := solo_map (fun _ => Result.done) hrun
    rw [hinactive rfl, hstore]
    exact (h.endOne Session.adminTerminate hordered (fun row => ⟨rfl, by
      simp [Session.adminTerminate]⟩) hfirst).later hordered
  | terminateUserSessions userId adminId =>
    obtain ⟨first, hfirst, -, -, hstore, -⟩ := solo_map Result.count hrun
    rw [hinactive rfl, hstore]
    obtain ⟨m, moments', rest, rfl, hrest, rfl⟩ := solo_await hfirst
    refine (h.endAll (fun session hsession => ?_) hrest).later hordered
    refine h.one session ?_
    have hlisted : session ∈ Sessions.listActiveForUser s m.2 userId := hsession
    unfold Sessions.listActiveForUser at hlisted
    dsimp only at hlisted
    generalize hfound : s.rows.filter (fun row => row.userId = userId &&
      (row.status = .Active || row.status = .Locked)) = found at hlisted
    have hin : session ∈ found := by
      cases hperm : found.permutations[m.2]? with
      | none =>
        rw [hperm] at hlisted
        exact hlisted
      | some listed =>
        rw [hperm] at hlisted
        have hp := List.mem_permutations.mp (List.mem_of_getElem? hperm)
        exact hp.mem_iff.mp hlisted
    rw [← hfound] at hin
    exact (List.mem_filter.mp hin).1
  | cleanupExpired =>
    obtain ⟨first, hfirst, -, -, hstore, -⟩ := solo_map Result.count hrun
    rw [hinactive rfl, hstore]
    exact (h.cleanup hfirst).later hordered

/-- The created session is as if written. -/
theorem sound_created {db : SessionStore.Columns} {t : ℤ} {session : Session} {maxConcurrent : ℕ}
    (hdb : ∀ a b, db.timestamptz a = some b → b = .ofMicros a.toMicros)
    (hlast : session.lastActivity = .ofNanos t)
    (h : Provider.createIn kind db session maxConcurrent (.empty _) = (.ok (), s)) :
    Sound config session.id s t t := by
  have hpersist := one_le_persistAfter config
  suffices hrow : ∃ row, s.rows = [row] ∧ row.id = session.id ∧ ∃ a : ℤ,
      row.lastActivity = .ofNanos a ∧ a ≤ t ∧ t < a + 1000 by
    obtain ⟨row, hrows, hid, a, ha, hle, hlt⟩ := hrow
    refine ⟨fun row' hrow' => ?_, fun row' hrow' _ => ?_, le_refl t⟩
    · rw [hrows] at hrow'
      rw [List.mem_singleton.mp hrow', hid]
    · rw [hrows] at hrow'
      rw [List.mem_singleton.mp hrow']
      exact ⟨a, ha, hle, by unfold second; omega⟩
  cases kind with
  | inMemory =>
    unfold Provider.createIn SessionStore.createInMemory at h
    dsimp only at h
    split_ifs at h
    · cases (Prod.mk.inj h).1
    · obtain rfl := (Prod.mk.inj h).2
      exact ⟨session, rfl, rfl, t, hlast, le_refl t, by omega⟩
  | database =>
    unfold Provider.createIn SessionStore.createInDatabase SessionStore.insertSession at h
    dsimp only at h
    split_ifs at h
    · cases (Prod.mk.inj h).1
    · cases hrow : SessionStore.rowOf db session with
      | none =>
        rw [hrow] at h
        cases (Prod.mk.inj h).1
      | some row =>
        rw [hrow] at h
        dsimp only at h
        split_ifs at h
        · cases (Prod.mk.inj h).1
        · cases (Prod.mk.inj h).1
        · cases hinsert : (Keyed.empty Session.id).insert? row with
          | none =>
            rw [hinsert] at h
            cases (Prod.mk.inj h).1
          | some s' =>
            rw [hinsert] at h
            obtain rfl := (Prod.mk.inj h).2
            refine ⟨row, (Keyed.rows_of_insert? hinsert).2, ?_⟩
            unfold SessionStore.rowOf at hrow
            simp only [Option.bind_eq_bind, Option.bind_eq_some_iff, Option.pure_def] at hrow
            obtain ⟨_, -, _, -, _, -, _, -, last, hbound, _, -, _, -, hrow⟩ := hrow
            obtain rfl := Option.some.inj hrow
            refine ⟨rfl, t / 1000 * 1000, ?_, by omega, by omega⟩
            show last = _
            rw [hdb _ _ hbound, hlast, DateTime.ofMicros_toMicros_ofNanos]

/-- **The stored time lags by less than the persist interval**, in every run. -/
theorem sound_of_lives {db : SessionStore.Columns}
    (hdb : ∀ a b, db.timestamptz a = some b → b = .ofMicros a.toMicros)
    (h : Lives config kind db s activity clock) : ∃ id, Sound config id s activity clock := by
  induction h with
  | created hexpires hstored => exact ⟨_, sound_created hdb rfl hstored⟩
  | ran _ hclock hrun ih =>
    obtain ⟨id, hsound⟩ := ih
    exact ⟨id, hsound.ran hclock hrun⟩

end

/-- **The timeout is enforced**: no validation succeeds later than the timeout, and one on time
succeeds, exactly when the start of the timeout is representable if it is on time. -/
theorem rule_iff (config : SessionConfig) (kind : StoreKind) (db : SessionStore.Columns)
    (hdb : ∀ a b, db.timestamptz a = some b → b = .ofMicros a.toMicros) {s : Sessions}
    {activity clock : ℤ} (hlives : Lives config kind db s activity clock) {task : Task}
    (htask : task.isValidation = true) {moments : List (ℤ × ℕ)} (hordered : Ordered clock moments)
    {run : TaskRun Result}
    (hrun : (body config task).solo (exec kind) (moments.map tick) s = some run) :
    Rule config s activity task run ↔
      (OnTime config s activity task run → Representable config run) := by
  obtain ⟨id, hsound⟩ := sound_of_lives hdb hlives
  unfold Rule OnTime Representable Succeeds
  rcases validation_of_solo htask hordered hrun with ⟨⟨e, hresult⟩, -, hnone⟩ |
    ⟨row, hrow, hasks, inner, hevaluation, -, hresult, -, hreadings⟩
  · have hfails : ¬∃ result, run.result = .ok result := fun ⟨_, hok⟩ => by
      rw [hresult] at hok
      cases hok
    have hmissing {P : Session → Prop} :
        ¬∃ row ∈ s.rows, task.asksFor row = true ∧ P row := fun ⟨row, hrow, hasks, _⟩ => by
      rw [hnone row hrow] at hasks
      cases hasks
    exact ⟨fun _ hontime => absurd hontime hmissing,
      fun _ => ⟨fun hok => absurd hok hfails, fun hontime => absurd hontime hmissing⟩⟩
  · rw [hreadings, hresult]
    cases hevaluation with
    | accepted hok hactive hnow hcutoff hrecent hstore =>
      rename_i session t cutoff
      rw [hok]
      obtain ⟨a, ha, hale, -⟩ := hsound.lags row hrow hactive
      have hle : t - activity ≤ config.inactivityTimeoutSecs * second := by
        rw [DateTime.addDuration_ofNanos hcutoff, ha, DateTime.ofNanos_lt_ofNanos] at hrecent
        unfold second
        omega
      refine ⟨fun _ _ now hmem => ?_, fun _ => ⟨fun _ => ⟨t, hnow, hle⟩, fun _ => ⟨_, rfl⟩⟩⟩
      obtain rfl := Option.some.inj (hnow.symm.trans hmem)
      rw [hcutoff]
      exact Option.some_ne_none _
    | @refused e hfail hstore hwhy =>
      rw [hfail]
      have hfails : ¬∃ result, (Except.error e : Except SessionError Session).map Result.session
          = Except.ok result := fun ⟨_, hok⟩ => by cases hok
      suffices hpanics : OnTime config s activity task run → ¬Representable config run by
        unfold OnTime Representable at hpanics
        rw [hreadings] at hpanics
        refine ⟨fun hrule hontime => absurd (hrule.2 hontime) hfails, fun hcond => ⟨fun hok =>
          absurd hok hfails, fun hontime => absurd (hcond hontime) (hpanics hontime)⟩⟩
      rintro ⟨row', hrow', -, hactive, hfresh, hrecent⟩ hrepresentable
      obtain rfl := hsound.eq hrow' hrow
      unfold Representable at hrepresentable
      rw [hreadings] at hfresh hrecent hrepresentable
      generalize readings inner.history = times at hwhy hfresh hrecent hrepresentable
      cases hwhy with
      | first hfirst =>
        rcases hfirst with hexpired | hstatus
        · rw [hfresh _ rfl] at hexpired
          cases hexpired
        · exact hstatus hactive
      | @second t₁ t₂ hidle =>
        cases hcutoff : (DateTime.ofNanos t₂).addDuration (-config.inactivityTimeoutSecs) with
        | none => exact hrepresentable t₂ rfl hcutoff
        | some cutoff =>
          have hlt := hidle cutoff hcutoff
          obtain ⟨a, ha, -, hlag⟩ := hsound.lags row' hrow hactive
          have hontime := hrecent t₂ rfl
          rw [DateTime.addDuration_ofNanos hcutoff, ha, DateTime.ofNanos_lt_ofNanos] at hlt
          unfold Session.second at hontime hlag
          rw [sub_mul] at hontime
          omega

/-! ### Instances -/

namespace Instance

/-- The largest timeout. -/
def longest : SessionConfig := { defaults with inactivityTimeoutSecs := 9223372036854775807 }

/-- A validation of the new session, some seconds after it was created. -/
def validation (config : SessionConfig) (seconds : ℤ) : Option (TaskRun Result) :=
  (body config (.validateSession "token")).solo (exec .inMemory)
    ((List.replicate 6 (seconds * second, 0)).map tick) one

theorem lives_one {config : SessionConfig} (habsolute : config.absoluteTimeoutSecs = 28800)
    (hmax : config.maxConcurrentSessions = 3) :
    Lives config .inMemory SessionStore.Instance.postgres one 0 0 := by
  have hexpires : (DateTime.ofNanos 0).addDuration config.absoluteTimeoutSecs
      = some (time 28800) := by
    rw [habsolute]
    decide +kernel
  refine @Lives.created config .inMemory SessionStore.Instance.postgres 0 "user1" "token" ⟨1⟩ none
    none (time 28800) one hexpires ?_
  rw [hmax]
  rfl

end Instance

open Instance in
/-- With the largest timeout the validation of a new session panics. -/
theorem validate_panics : ∃ run, Lives longest .inMemory SessionStore.Instance.postgres one 0 0 ∧
    validation longest 0 = some run ∧ ¬Rule longest one 0 (.validateSession "token") run := by
  refine ⟨⟨.error .Panic, [⟨.getByToken "token", .ok (some session)⟩, ⟨.now, .ofNanos 0⟩,
    ⟨.now, .ofNanos 0⟩], one, _⟩, lives_one rfl rfl, rfl, fun hrule => ?_⟩
  obtain ⟨result, hresult⟩ := hrule.2 ⟨session, List.mem_singleton_self _, rfl, rfl,
    fun t ht => by cases ht; decide +kernel, fun t ht => by cases ht; decide +kernel⟩
  cases hresult

open Instance in
/-- A validation within the timeout. -/
theorem rule_iff_validation : ∃ run, validation defaults 100 = some run ∧
    (Rule defaults one 0 (.validateSession "token") run ↔
      (OnTime defaults one 0 (.validateSession "token") run → Representable defaults run)) := by
  have hordered : Ordered 0 (List.replicate 6 (100 * second, 0)) := by
    unfold Ordered
    decide +kernel
  refine ⟨_, rfl, ?_⟩
  exact rule_iff defaults .inMemory SessionStore.Instance.postgres
    (fun _ _ h => (Option.some.inj h).symm) (lives_one rfl rfl) rfl hordered rfl

end Ostrich.Common.Session
